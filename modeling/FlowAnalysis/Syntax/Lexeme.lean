import FlowAnalysis.Text.Blank

/-!
# Lexemes

Where the lexemes of a flow end.  A text is an array of characters and a lexeme is recognised
from an offset; every function here answers the offset just after the lexeme, or nothing when
none begins there.

## Main definitions

* `skipBlanks`, `commentEnd?` — what may stand between tokens.
* `wordEnd?`, `numberEnd?`, `regexEnd?` — identifiers and keywords, numbers, regular expressions.
* `escapeEnd?` — an escape sequence inside a string or a template.
-/

namespace FlowAnalysis.Syntax

/-- The characters of a text that is being read. -/
abbrev Chars := Array Char

namespace Lexeme

/-- The first offset from `i` on, at most `n` further, whose character is not in the class. -/
def skipWhile (text : Chars) (inside : Char → Bool) : Nat → Nat → Nat
  | 0, i => i
  | n + 1, i =>
    match text[i]? with
    | some c => if inside c then skipWhile text inside n (i + 1) else i
    | none => i

/-- The end of the longest run of characters of a class. -/
def runEnd (text : Chars) (inside : Char → Bool) (i : Nat) : Nat :=
  skipWhile text inside (text.size - i) i

/-- Whether a character separates tokens. -/
def isSeparator (c : Char) : Bool :=
  Text.isBlank c || c.toNat = 0xFEFF || c.toNat = 0x2060 || c.toNat = 0x200B

/-- The offset of the first character that does not separate tokens. -/
def skipBlanks (text : Chars) (i : Nat) : Nat := runEnd text isSeparator i

/-- Whether the given characters stand at an offset. -/
def hasAt (text : Chars) (part : List Char) (i : Nat) : Bool :=
  match part with
  | [] => true
  | c :: rest => text[i]? = some c && hasAt text rest (i + 1)

/-- Whether a character ends a line for the grammar. -/
def isLineEnd (c : Char) : Bool :=
  c = '\n' || c = '\r' || c.toNat = 0x2028 || c.toNat = 0x2029

/-- Whether a character may stand anywhere in a token; a null character never does. -/
def isPlain (c : Char) : Bool := c.toNat ≠ 0

/-- The end of a block comment whose inside begins at an offset. -/
def blockEnd? (text : Chars) : Nat → Nat → Option Nat
  | 0, _ => none
  | n + 1, i =>
    match text[i]? with
    | some '*' => if text[i + 1]? = some '/' then some (i + 2) else blockEnd? text n (i + 1)
    | some c => if isPlain c then blockEnd? text n (i + 1) else none
    | none => none

/-- The end of the comment that begins at an offset. -/
def commentEnd? (text : Chars) (i : Nat) : Option Nat :=
  if hasAt text ['/', '/'] i then
    some (runEnd text (fun c => isPlain c && !isLineEnd c) (i + 2))
  else if hasAt text ['/', '*'] i then blockEnd? text (text.size - i) (i + 2)
  else none

/-- The end of the comment in the form of a markup comment that begins at an offset. -/
def markupCommentEnd? (text : Chars) (i : Nat) : Option Nat :=
  let body := fun j =>
    runEnd text (fun c => isPlain c && c ≠ '\n' && c.toNat ≠ 0x2028 && c.toNat ≠ 0x2029) j
  if hasAt text ['<', '!', '-', '-'] i then some (body (i + 4))
  else if hasAt text ['-', '-', '>'] i then some (body (i + 3))
  else none

/-- Whether a character is a hexadecimal digit. -/
def isHexDigit (c : Char) : Bool :=
  c.isDigit || ('a' ≤ c && c ≤ 'f') || ('A' ≤ c && c ≤ 'F')

/-- The end of `n` hexadecimal digits. -/
def hexDigitsEnd? (text : Chars) : Nat → Nat → Option Nat
  | 0, i => some i
  | n + 1, i =>
    match text[i]? with
    | some c => if isHexDigit c then hexDigitsEnd? text n (i + 1) else none
    | none => none

/-- The end of a code point written in braces, whose opening brace stands at an offset. -/
def bracedCodeEnd? (text : Chars) (i : Nat) : Option Nat :=
  if text[i]? = some '\x7b' then
    let j := runEnd text isHexDigit (i + 1)
    if i + 1 < j && text[j]? = some '\x7d' then some (j + 1) else none
  else none

/-- The end of a code point escape, `u` and what follows it. -/
def unicodeEscapeEnd? (text : Chars) (i : Nat) : Option Nat :=
  if text[i]? = some 'u' then
    (bracedCodeEnd? text (i + 1)).or (hexDigitsEnd? text 4 (i + 1))
  else none

/-- The punctuation that no identifier contains. -/
def isPunctuation (c : Char) : Bool :=
  ":;`\"'@#.,|^&<=>+-*/\\%?!~()[]\x7b\x7d".toList.contains c

/-- Whether a character may continue an identifier. -/
def isWordPart (c : Char) : Bool :=
  0x20 < c.toNat && !isSeparator c && !isPunctuation c

/-- Whether a character may begin an identifier. -/
def isWordStart (c : Char) : Bool := isWordPart c && !c.isDigit

/-- The end of an identifier whose first character has been read. -/
def wordRest (text : Chars) : Nat → Nat → Nat
  | 0, i => i
  | n + 1, i =>
    match text[i]? with
    | some '\\' =>
      match unicodeEscapeEnd? text (i + 1) with
      | some j => wordRest text n j
      | none => i
    | some c => if isWordPart c then wordRest text n (i + 1) else i
    | none => i

/-- The end of the identifier or keyword that begins at an offset. -/
def wordEnd? (text : Chars) (i : Nat) : Option Nat :=
  match text[i]? with
  | some '\\' => (unicodeEscapeEnd? text (i + 1)).map (wordRest text (text.size - i))
  | some c => if isWordStart c then some (wordRest text (text.size - i) (i + 1)) else none
  | none => none

/-- The end of digits of a class with single underscores between them. -/
def digitsRest (text : Chars) (digit : Char → Bool) : Nat → Nat → Nat
  | 0, i => i
  | n + 1, i =>
    match text[i]? with
    | some '_' =>
      if (text[i + 1]?).any digit then digitsRest text digit n (i + 2) else i
    | some c => if digit c then digitsRest text digit n (i + 1) else i
    | none => i

/-- The end of a nonempty run of digits with single underscores between them. -/
def digitsEnd? (text : Chars) (digit : Char → Bool) (i : Nat) : Option Nat :=
  if (text[i]?).any digit then some (digitsRest text digit (text.size - i) (i + 1)) else none

/-- Whether one of two characters stands at an offset. -/
def eitherAt (text : Chars) (a b : Char) (i : Nat) : Bool :=
  text[i]? = some a || text[i]? = some b

/-- The end of a number with a radix marker. -/
def radixEnd? (text : Chars) (i : Nat) : Option Nat :=
  if text[i]? = some '0' then
    if eitherAt text 'x' 'X' (i + 1) then digitsEnd? text isHexDigit (i + 2)
    else if eitherAt text 'o' 'O' (i + 1) then
      digitsEnd? text (fun c => '0' ≤ c && c ≤ '7') (i + 2)
    else if eitherAt text 'b' 'B' (i + 1) then
      digitsEnd? text (fun c => c = '0' || c = '1') (i + 2)
    else none
  else none

/-- The end of an exponent, if one begins at an offset; otherwise the offset itself. -/
def exponentEnd (text : Chars) (i : Nat) : Nat :=
  if eitherAt text 'e' 'E' i then
    let j := if eitherAt text '+' '-' (i + 1) then i + 2 else i + 1
    (digitsEnd? text Char.isDigit j).getD i
  else i

/-- The end of the whole part of a decimal number that may have a fraction or an exponent:
`0`, or digits that begin with at most one zero. -/
def wholePartEnd? (text : Chars) (i : Nat) : Option Nat :=
  let nonzero := fun j => (text[j]?).any fun c => '1' ≤ c && c ≤ '9'
  if nonzero i then digitsEnd? text Char.isDigit i
  else if text[i]? = some '0' then
    if nonzero (i + 1) then digitsEnd? text Char.isDigit (i + 1) else some (i + 1)
  else none

/-- The end of a decimal number with a fraction or an exponent. -/
def decimalEnd? (text : Chars) (i : Nat) : Option Nat :=
  let fraction := fun j => exponentEnd text ((digitsEnd? text Char.isDigit j).getD j)
  match wholePartEnd? text i with
  | some j => if text[j]? = some '.' then some (fraction (j + 1)) else some (exponentEnd text j)
  | none =>
    if text[i]? = some '.' && (text[i + 1]?).any Char.isDigit then some (fraction (i + 1))
    else none

/-- The longer of two lexemes. -/
def longer : Option Nat → Option Nat → Option Nat
  | some a, some b => some (max a b)
  | some a, none => some a
  | none, b => b

/-- A whole number, with the mark of a big integer if it has one. -/
def withBigMark (text : Chars) (i : Nat) : Nat :=
  if text[i]? = some 'n' then i + 1 else i

/-- The end of the number that begins at an offset. -/
def numberEnd? (text : Chars) (i : Nat) : Option Nat :=
  let whole := longer (radixEnd? text i) (digitsEnd? text Char.isDigit i)
  longer (whole.map (withBigMark text)) (decimalEnd? text i)

/-- The end of the escape sequence whose backslash stands at an offset. -/
def escapeEnd? (text : Chars) (i : Nat) : Option Nat :=
  match text[i + 1]? with
  | some 'x' => hexDigitsEnd? text 2 (i + 2)
  | some 'u' => unicodeEscapeEnd? text (i + 1)
  | some c =>
    if '0' ≤ c && c ≤ '7' then
      some (skipWhile text (fun d => '0' ≤ d && d ≤ '7') 3 (i + 1))
    else if (c = '\r' || c = '?') &&
        (text[i + 2]?).any (fun d => d = '\n' || d.toNat = 0x2028 || d.toNat = 0x2029) then
      some (i + 3)
    else if isPlain c then some (i + 2) else none
  | none => none

/-- The end of the inside of a character class of a regular expression. -/
def regexClassEnd? (text : Chars) : Nat → Nat → Option Nat
  | 0, _ => none
  | n + 1, i =>
    match text[i]? with
    | some ']' => some (i + 1)
    | some '\n' => none
    | some '\\' =>
      if (text[i + 1]?).any (fun c => isPlain c && c ≠ '\n') then regexClassEnd? text n (i + 2)
      else none
    | some c => if isPlain c then regexClassEnd? text n (i + 1) else none
    | none => none

/-- The end of the inside of a regular expression, before its closing slash. -/
def regexRest (text : Chars) : Nat → Nat → Nat
  | 0, i => i
  | n + 1, i =>
    match text[i]? with
    | some '/' => i
    | some '\n' => i
    | some '\\' =>
      if (text[i + 1]?).any (fun c => isPlain c && c ≠ '\n') then regexRest text n (i + 2) else i
    | some '[' =>
      match regexClassEnd? text (text.size - i) (i + 1) with
      | some j => regexRest text n j
      | none => i
    | some c => if isPlain c then regexRest text n (i + 1) else i
    | none => i

/-- The end of the inside of a regular expression, which must not be empty. -/
def regexEnd? (text : Chars) (i : Nat) : Option Nat :=
  let j := regexRest text (text.size - i) i
  if i < j then some j else none

/-- The end of a run of template characters: everything up to a backquote, a backslash or the
start of a substitution, one of which must follow. -/
def templateRest? (text : Chars) : Nat → Nat → Option Nat
  | 0, _ => none
  | n + 1, i =>
    match text[i]? with
    | some '\x60' => some i
    | some '\\' => some i
    | some '$' => if text[i + 1]? = some '\x7b' then some i else templateRest? text n (i + 1)
    | some c => if isPlain c then templateRest? text n (i + 1) else none
    | none => none

end Lexeme

end FlowAnalysis.Syntax
