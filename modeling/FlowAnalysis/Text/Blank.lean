/-!
# Blank characters

The characters with the Unicode property `White_Space`, and the operations on texts that
depend on them: trimming, splitting at blanks, and splitting into lines.

## Main definitions

* `isBlank` — a character with the property `White_Space`.
* `trim` — a text without its leading and trailing blanks.
* `words` — the maximal runs of characters that are not blank.
* `lines` — the lines of a text, without their line ends.
-/

namespace FlowAnalysis.Text

/-- Ranges of the Unicode property `White_Space`. -/
def blankRanges : List (Nat × Nat) :=
  [(0x09, 0x0D), (0x20, 0x20), (0x85, 0x85), (0xA0, 0xA0), (0x1680, 0x1680), (0x2000, 0x200A),
   (0x2028, 0x2029), (0x202F, 0x202F), (0x205F, 0x205F), (0x3000, 0x3000)]

/-- Whether a character has the Unicode property `White_Space`. -/
def isBlank (c : Char) : Bool :=
  blankRanges.any fun r => r.1 ≤ c.toNat && c.toNat ≤ r.2

/-- Whether a character is one of the six blanks of ASCII. -/
def isAsciiBlank (c : Char) : Bool :=
  c = ' ' || 0x09 ≤ c.toNat && c.toNat ≤ 0x0D

/-- A text without its leading blanks. -/
def trimLeft (text : List Char) : List Char := text.dropWhile isBlank

/-- A text without its leading and trailing blanks. -/
def trim (text : List Char) : List Char :=
  (trimLeft (trimLeft text).reverse).reverse

/-- The pieces of a text between characters of a class, empty pieces included. -/
def splitAt (cut : Char → Bool) : List Char → List (List Char)
  | [] => [[]]
  | c :: rest =>
    match splitAt cut rest with
    | [] => [[c]]
    | piece :: pieces => if cut c then [] :: piece :: pieces else (c :: piece) :: pieces

/-- The maximal runs of characters that are not blank. -/
def words (text : List Char) : List (List Char) :=
  (splitAt isBlank text).filter (· ≠ [])

/-- A line without the carriage return that may stand before its line feed. -/
def dropCarriageReturn (line : List Char) : List Char :=
  match line.reverse with
  | '\r' :: rest => rest.reverse
  | _ => line

/-- The lines of a text: a line feed, with a carriage return before it or not, ends a line,
and the last line may lack its end. -/
def lines (text : List Char) : List (List Char) :=
  let pieces := splitAt (· = '\n') text
  let ended := pieces.dropLast.map dropCarriageReturn
  match pieces.getLast? with
  | some [] => ended
  | some rest => ended ++ [rest]
  | none => ended

/-- Whether one text occurs inside another. -/
def occursIn (part : List Char) : List Char → Bool
  | [] => part.isEmpty
  | c :: rest => part.isPrefixOf (c :: rest) || occursIn part rest

@[simp] theorem words_nil : words [] = [] := rfl

@[simp] theorem lines_nil : lines [] = [] := rfl

end FlowAnalysis.Text
