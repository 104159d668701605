import FlowAnalysis.Json.Value

/-!
# Reading JSON texts

The reader takes the strict grammar of JSON.  Numbers with a point, an exponent or too many digits
become floating-point numbers: of the digits as many are kept as fit into 64 bits, and the result
is scaled by a rounded power of ten.

## Main definitions

* `Json.Scan` — a number in the middle of being read.
* `Json.ofText?` — the value of a text, if the text is one.
-/

namespace FlowAnalysis.Json

open Decimal

/-- Whether a character may stand between the parts of a value. -/
def isGap (c : Char) : Bool := c = ' ' || c = '\n' || c = '\t' || c = '\r'

/-- A text without the blanks at its beginning. -/
def skipGaps (text : List Char) : List Char := text.dropWhile isGap

/-! ### Texts in quotes -/

/-- The value of a hexadecimal digit. -/
def hexValue? (c : Char) : Option Nat :=
  if c.isDigit then some (c.toNat - 48)
  else if 'a' ≤ c && c ≤ 'f' then some (c.toNat - 87)
  else if 'A' ≤ c && c ≤ 'F' then some (c.toNat - 55)
  else none

/-- The value of four hexadecimal digits, and what follows them. -/
def readHex4 : List Char → Option (Nat × List Char)
  | a :: b :: c :: d :: rest => do
    some (((← hexValue? a) * 16 + (← hexValue? b)) * 256 + (← hexValue? c) * 16 + (← hexValue? d),
      rest)
  | _ => none

/-- A part of a text in quotes: a character, or half of one. -/
inductive Unit16
  | char (c : Char)
  | leading (n : Nat)
  | trailing (n : Nat)
  deriving DecidableEq, Repr

/-- The part that a code unit stands for. -/
def Unit16.ofNat (n : Nat) : Unit16 :=
  if 0xD800 ≤ n && n ≤ 0xDBFF then .leading n
  else if 0xDC00 ≤ n && n ≤ 0xDFFF then .trailing n
  else .char (Char.ofNat n)

/-- The characters of parts, with halves joined; nothing if a half stands alone. -/
def joinUnits : List Unit16 → Option (List Char)
  | [] => some []
  | .char c :: rest => (joinUnits rest).map (c :: ·)
  | .leading a :: .trailing b :: rest =>
    (joinUnits rest).map (Char.ofNat (0x10000 + (a - 0xD800) * 0x400 + (b - 0xDC00)) :: ·)
  | _ => none

/-- The character that an escape with one letter stands for. -/
def simpleEscape? (c : Char) : Option Char :=
  match c with
  | '"' => some '"'
  | '\\' => some '\\'
  | '/' => some '/'
  | 'b' => some (Char.ofNat 8)
  | 'f' => some (Char.ofNat 12)
  | 'n' => some '\n'
  | 'r' => some '\r'
  | 't' => some '\t'
  | _ => none

/-- Reads a text up to its closing quote; the parts come back newest first. -/
def readQuoted : Nat → List Unit16 → List Char → Option (List Unit16 × List Char)
  | 0, _, _ => none
  | n + 1, acc, text =>
    match text with
    | [] => none
    | '"' :: rest => some (acc, rest)
    | '\\' :: 'u' :: rest =>
      match readHex4 rest with
      | some (v, rest) => readQuoted n (Unit16.ofNat v :: acc) rest
      | none => none
    | '\\' :: c :: rest =>
      match simpleEscape? c with
      | some d => readQuoted n (.char d :: acc) rest
      | none => none
    | '\\' :: [] => none
    | c :: rest => if c.toNat < 32 then none else readQuoted n (.char c :: acc) rest

/-- Reads a text whose opening quote has been read; without a value when half a character stands
alone in it. -/
def readString (text : List Char) : Option (Option String × List Char) :=
  (readQuoted (text.length + 1) [] text).map fun (units, rest) =>
    ((joinUnits units.reverse).map String.ofList, rest)

/-! ### Numbers -/

/-- The digits of a number and what has been dropped of them. -/
structure Scan where
  /-- The digits that are kept. -/
  kept : Nat
  /-- The power of ten by which they are to be multiplied. -/
  scale : Int
  deriving DecidableEq, Repr

/-- The greatest number that the kept digits may make up. -/
def maxKept : Nat := Nat.pow 2 64 - 1

/-- The leading digits of a text. -/
def spanDigits (text : List Char) : List Char × List Char := text.span Char.isDigit

/-- The value of a digit. -/
def digitValue (c : Char) : Nat := c.toNat - 48

/-- The digits in front of the point: once one does not fit, it and all behind it only count. -/
def keepWhole : Scan → List Char → Scan
  | s, [] => s
  | s, c :: rest =>
    if s.scale = 0 && s.kept * 10 + digitValue c ≤ maxKept then
      keepWhole ⟨s.kept * 10 + digitValue c, 0⟩ rest
    else ⟨s.kept, s.scale + (c :: rest).length⟩

/-- The digits behind the point: once one does not fit, it and all behind it are dropped. -/
def keepFraction : Scan → List Char → Scan
  | s, [] => s
  | s, c :: rest =>
    if s.kept * 10 + digitValue c ≤ maxKept then
      keepFraction ⟨s.kept * 10 + digitValue c, s.scale - 1⟩ rest
    else s

/-- Divides by `10 ^ 308` as long as the scale is below the least power that is at hand. -/
def shrink : Nat → Binary64 → Int → Option (Binary64 × Int)
  | 0, x, _ => some (x, 0)
  | n + 1, x, e =>
    if -308 ≤ e then some (x, e)
    else if x.isZero then some (x, 0)
    else
      match Binary64.ofDecimal? false 1 308 with
      | some p =>
        match x.div? p with
        | some y => shrink n y (e + 308)
        | none => none
      | none => none

/-- The floating-point number of the kept digits, scaled. -/
def Scan.toBinary? (s : Scan) : Option Binary64 := do
  let x ← Binary64.ofNat? false s.kept
  if 308 < s.scale then (if x.isZero then some x else none)
  else if 0 ≤ s.scale then x.mul? (← Binary64.ofDecimal? false 1 s.scale)
  else
    let (y, e) ← shrink 5 x s.scale
    y.div? (← Binary64.ofDecimal? false 1 (-e))

/-- The number with a sign. -/
def signed (negative : Bool) (x : Binary64) : Binary64 := if negative then x.neg else x

/-- The floating-point number of a scan; without a value when it is out of range. -/
def Scan.float (negative : Bool) (s : Scan) : Json :=
  match s.toBinary? with
  | some x => .number (.float (signed negative x))
  | none => .meaningless

/-- The greatest exponent that is worked with. -/
def maxExponent : Nat := Nat.pow 2 31 - 1

/-- Scales by the exponent that the digits of a text stand for. -/
def Scan.withExponent (negative : Bool) (s : Scan) (below : Bool) (digits : List Char) : Json :=
  let e := digits.foldl (fun n c => n * 10 + digitValue c) 0
  if maxExponent < e then
    if s.kept ≠ 0 && !below then .meaningless else .number (.float (Binary64.zero negative))
  else Scan.float negative ⟨s.kept, if below then s.scale - e else s.scale + e⟩

/-- Reads the exponent behind its mark. -/
def readExponent (negative : Bool) (s : Scan) (text : List Char) :
    Option (Json × List Char) :=
  let (below, rest) : Bool × List Char :=
    match text with
    | '+' :: rest => (false, rest)
    | '-' :: rest => (true, rest)
    | _ => (false, text)
  let (digits, rest) := spanDigits rest
  if digits = [] then none else some (s.withExponent negative below digits, rest)

/-- A whole number; what does not fit into 64 bits, and `-0`, becomes a floating-point number. -/
def wholeNumber (negative : Bool) (s : Scan) : Json :=
  if s.scale ≠ 0 then s.float negative
  else if !negative then .number (.int s.kept)
  else if 0 < s.kept && s.kept ≤ Nat.pow 2 63 then .number (.int (-s.kept))
  else s.float negative

/-- Reads a number whose sign has been read. -/
def readNumber (negative : Bool) (text : List Char) : Option (Json × List Char) :=
  let (digits, rest) := spanDigits text
  match digits with
  | [] => none
  | '0' :: _ :: _ => none
  | _ =>
    let s := keepWhole ⟨0, 0⟩ digits
    match rest with
    | '.' :: rest =>
      let (fraction, rest) := spanDigits rest
      if fraction = [] then none
      else
        let s := keepFraction s fraction
        match rest with
        | 'e' :: rest => readExponent negative s rest
        | 'E' :: rest => readExponent negative s rest
        | _ => some (s.float negative, rest)
    | 'e' :: rest => readExponent negative s rest
    | 'E' :: rest => readExponent negative s rest
    | _ => some (wholeNumber negative s, rest)

/-! ### Values -/

/-- Reads a given word. -/
def readWord (word : String) (v : Json) (text : List Char) : Option (Json × List Char) :=
  if word.toList.isPrefixOf text then some (v, text.drop word.length) else none

/-- The object of entries; without a value when one of the keys has none. -/
def ofEntries (entries : List (Option String × Json)) : Json :=
  match entries.mapM fun e => e.1.map (·, e.2) with
  | some es => .object es
  | none => .meaningless

mutual

/-- Reads a value, with blanks in front of it; `n` bounds the work. -/
def readValue : Nat → List Char → Option (Json × List Char)
  | 0, _ => none
  | n + 1, text =>
    match skipGaps text with
    | 'n' :: rest => readWord "null" .null ('n' :: rest)
    | 't' :: rest => readWord "true" (.bool true) ('t' :: rest)
    | 'f' :: rest => readWord "false" (.bool false) ('f' :: rest)
    | '"' :: rest =>
      (readString rest).map fun (s, rest) =>
        ((s.map Json.string).getD .meaningless, rest)
    | '[' :: rest =>
      match skipGaps rest with
      | ']' :: rest => some (.array [], rest)
      | rest => (readItems n [] rest).map fun (vs, rest) => (.array vs, rest)
    | '\x7b' :: rest =>
      match skipGaps rest with
      | '\x7d' :: rest => some (.object [], rest)
      | rest => (readEntries n [] rest).map fun (es, rest) => (ofEntries es, rest)
    | '-' :: rest => readNumber true rest
    | rest => readNumber false rest

/-- Reads the items of an array up to its closing bracket. -/
def readItems : Nat → List Json → List Char → Option (List Json × List Char)
  | 0, _, _ => none
  | n + 1, acc, text =>
    match readValue n text with
    | none => none
    | some (v, rest) =>
      match skipGaps rest with
      | ',' :: rest => readItems n (v :: acc) rest
      | ']' :: rest => some ((v :: acc).reverse, rest)
      | _ => none

/-- Reads the entries of an object up to its closing bracket. -/
def readEntries : Nat → List (Option String × Json) → List Char →
    Option (List (Option String × Json) × List Char)
  | 0, _, _ => none
  | n + 1, acc, text =>
    match skipGaps text with
    | '"' :: rest =>
      match readString rest with
      | none => none
      | some (k, rest) =>
        match skipGaps rest with
        | ':' :: rest =>
          match readValue n rest with
          | none => none
          | some (v, rest) =>
            match skipGaps rest with
            | ',' :: rest => readEntries n ((k, v) :: acc) rest
            | '\x7d' :: rest => some (((k, v) :: acc).reverse, rest)
            | _ => none
        | _ => none
    | _ => none

end

/-- The value of a text that holds one value and blanks around it. -/
def ofChars? (text : List Char) : Option Json :=
  match readValue (2 * text.length + 2) text with
  | some (v, rest) => if skipGaps rest = [] then some v else none
  | none => none

/-- The value of a text. -/
def ofText? (text : String) : Option Json := ofChars? text.toList

end FlowAnalysis.Json
