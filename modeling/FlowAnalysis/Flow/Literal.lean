import FlowAnalysis.Json.Value
import FlowAnalysis.Syntax.Source

/-!
# The values of literals

What strings, templates without substitutions, numbers and property names stand for.

## Main definitions

* `unescape` — the characters that the inside of a string stands for.
* `numberOf?` — the value of a number as it is written in a flow.
* `Source.stringValue?`, `Source.propertyName?` — the value of a node.
-/

namespace FlowAnalysis

open Decimal Syntax

namespace Literal

/-! ### Strings -/

/-- The value of hexadecimal digits, if there are any and nothing else. -/
def hexNumber? (digits : List Char) : Option Nat :=
  if digits ≠ [] && digits.all Lexeme.isHexDigit then
    some (digits.foldl (fun n c =>
      n * 16 + (if c.isDigit then c.toNat - 48 else c.toLower.toNat - 87)) 0)
  else none

/-- The character with the given number in hexadecimal digits; without one, the escape stands for
itself. -/
def codePoint (marker : Char) (digits : List Char) : List Char :=
  match hexNumber? digits with
  | some n => if n.isValidChar then [Char.ofNat n] else '\\' :: marker :: digits
  | none => '\\' :: marker :: digits

/-- The character that an escape with one letter stands for. -/
def simpleEscape (c : Char) : Char :=
  match c with
  | 'n' => '\n'
  | 'r' => '\r'
  | 't' => '\t'
  | 'b' => Char.ofNat 8
  | 'f' => Char.ofNat 12
  | 'v' => Char.ofNat 11
  | '0' => Char.ofNat 0
  | c => c

/-- Whether an escaped line end is left out. -/
def isJoint (c : Char) : Bool := c = '\n' || c.toNat = 0x2028 || c.toNat = 0x2029

/-- The characters that the inside of a string stands for; `n` bounds the work. -/
def unescapeUpTo : Nat → List Char → List Char
  | 0, _ => []
  | n + 1, text =>
    match text with
    | [] => []
    | '\\' :: [] => ['\\']
    | '\\' :: '\r' :: '\n' :: rest => unescapeUpTo n rest
    | '\\' :: '\r' :: rest => unescapeUpTo n rest
    | '\\' :: 'x' :: rest => codePoint 'x' (rest.take 2) ++ unescapeUpTo n (rest.drop 2)
    | '\\' :: 'u' :: '\x7b' :: rest =>
      codePoint 'u' (rest.takeWhile (· ≠ '\x7d')) ++
        unescapeUpTo n ((rest.dropWhile (· ≠ '\x7d')).drop 1)
    | '\\' :: 'u' :: rest => codePoint 'u' (rest.take 4) ++ unescapeUpTo n (rest.drop 4)
    | '\\' :: c :: rest =>
      if isJoint c then unescapeUpTo n rest else simpleEscape c :: unescapeUpTo n rest
    | c :: rest => c :: unescapeUpTo n rest

/-- The characters that the inside of a string stands for. -/
def unescape (text : List Char) : List Char := unescapeUpTo (text.length + 1) text

/-- A text without its first and its last character. -/
def inside (text : List Char) : List Char := (text.drop 1).dropLast

/-! ### Numbers -/

/-- The value of digits to a base. -/
def digitsValue (base : Nat) (digits : List Char) : Nat :=
  digits.foldl (fun n c =>
    n * base + (if c.isDigit then c.toNat - 48 else c.toLower.toNat - 87)) 0

/-- The base that the first two characters of a number announce. -/
def radixOf? : List Char → Option (Nat × List Char)
  | '0' :: c :: digits =>
    if c = 'x' || c = 'X' then some (16, digits)
    else if c = 'o' || c = 'O' then some (8, digits)
    else if c = 'b' || c = 'B' then some (2, digits)
    else none
  | _ => none

/-- Whether a whole number fits into 64 bits with a sign. -/
def fitsWord (i : Int) : Bool := -(Nat.pow 2 63 : Int) ≤ i && i < Nat.pow 2 63

/-- The digits of a decimal and its power of ten. -/
def decimalParts (text : List Char) : Nat × Int :=
  let isMark := fun c => c = 'e' || c = 'E'
  let mantissa := text.takeWhile fun c => !isMark c
  let exponent := (text.dropWhile fun c => !isMark c).drop 1
  let whole := mantissa.takeWhile (· ≠ '.')
  let fraction := (mantissa.dropWhile (· ≠ '.')).drop 1
  let e : Int :=
    match exponent with
    | '-' :: ds => -(digitsValue 10 ds : Int)
    | '+' :: ds => digitsValue 10 ds
    | ds => digitsValue 10 ds
  (digitsValue 10 (whole ++ fraction), e - fraction.length)

/-- The value of a number as it is written in a flow.  A number of arbitrary size, a number in
another base that does not fit into 64 bits and a number that is too large have none. -/
def numberOf? (negative : Bool) (text : List Char) : Option Number :=
  let signed := fun n : Nat => if negative then -(n : Int) else (n : Int)
  let digits := text.filter (· ≠ '_')
  if text.getLast? = some 'n' then none
  else
    match radixOf? digits with
    | some (base, ds) =>
      let n := digitsValue base ds
      if n < Nat.pow 2 63 then some (.int (signed n)) else none
    | none =>
      let whole := signed (digitsValue 10 digits)
      if digits.all Char.isDigit && fitsWord whole then some (.int whole)
      else
        let (ds, e) := decimalParts digits
        (Binary64.ofDecimal? negative ds e).map .float

end Literal

namespace Syntax.Source

/-- The value of a string, or of a template without substitutions. -/
def stringValue? (s : Source) (t : Tree) : Option String :=
  let text := s.chars t
  if text.length < 2 then none
  else if t.is .string || t.is .templateString && !t.children.any (·.is .templateSubstitution) then
    some (String.ofList (Literal.unescape (Literal.inside text)))
  else none

/-- The name of a property, if the text says it. -/
def propertyName? (s : Source) (t : Tree) : Option String :=
  if t.isAny [.propertyIdentifier, .privatePropertyIdentifier, .shorthandPropertyIdentifier,
      .shorthandPropertyIdentifierPattern, .identifier, .number] then
    some (s.textOf t)
  else if t.is .string then s.stringValue? t
  else none

end Syntax.Source

end FlowAnalysis
