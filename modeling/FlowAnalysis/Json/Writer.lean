import FlowAnalysis.Json.Value

/-!
# JSON texts

How values are written: on one line without blanks, or over several lines.

## Main definitions

* `Json.quote` — a text in quotes.
* `Json.compact` — a value on one line.
* `Json.pretty` — a value over several lines, two blanks deeper at each level.
-/

namespace FlowAnalysis.Json

/-- Four hexadecimal digits. -/
def hex4 (n : Nat) : List Char :=
  [n / 4096, n / 256, n / 16, n].map fun d => Nat.digitChar (d % 16)

/-- A character as it is written inside quotes. -/
def escapeChar (c : Char) : List Char :=
  if c = '"' then ['\\', '"']
  else if c = '\\' then ['\\', '\\']
  else if c = '\n' then ['\\', 'n']
  else if c = '\r' then ['\\', 'r']
  else if c = '\t' then ['\\', 't']
  else if c.toNat = 8 then ['\\', 'b']
  else if c.toNat = 12 then ['\\', 'f']
  else if c.toNat < 32 then '\\' :: 'u' :: hex4 c.toNat
  else [c]

/-- A text in quotes. -/
def quote (s : String) : List Char := '"' :: s.toList.flatMap escapeChar ++ ['"']

/-- A number as it is written. -/
def numberText : Number → List Char
  | .int (.ofNat n) => Decimal.digitsText n
  | .int (.negSucc n) => '-' :: Decimal.digitsText (n + 1)
  | .float x => Decimal.Notation.plain.text x

mutual

/-- A value on one line, followed by some text. -/
def compactTo : Json → List Char → List Char
  | null, rest => "null".toList ++ rest
  | bool true, rest => "true".toList ++ rest
  | bool false, rest => "false".toList ++ rest
  | number n, rest => numberText n ++ rest
  | string s, rest => quote s ++ rest
  | array [], rest => '[' :: ']' :: rest
  | array (v :: vs), rest => '[' :: compactTo v (compactItems vs (']' :: rest))
  | object [], rest => '\x7b' :: '\x7d' :: rest
  | object ((k, v) :: es), rest =>
    '\x7b' :: (quote k ++ ':' :: compactTo v (compactEntries es ('\x7d' :: rest)))
  | meaningless, rest => "null".toList ++ rest

/-- The further items of an array, followed by some text. -/
def compactItems : List Json → List Char → List Char
  | [], rest => rest
  | v :: vs, rest => ',' :: compactTo v (compactItems vs rest)

/-- The further entries of an object, followed by some text. -/
def compactEntries : List (String × Json) → List Char → List Char
  | [], rest => rest
  | (k, v) :: es, rest => ',' :: (quote k ++ ':' :: compactTo v (compactEntries es rest))

end

/-- A value on one line. -/
def compact (v : Json) : String := String.ofList (compactTo v [])

/-- A line end and the blanks in front of a line. -/
def newLine (level : Nat) : List Char := '\n' :: List.replicate (2 * level) ' '

mutual

/-- A value over several lines at a level, followed by some text. -/
def prettyTo (level : Nat) : Json → List Char → List Char
  | array (v :: vs), rest =>
    '[' :: (newLine (level + 1) ++
      prettyTo (level + 1) v (prettyItems (level + 1) vs (newLine level ++ ']' :: rest)))
  | object ((k, v) :: es), rest =>
    '\x7b' :: (newLine (level + 1) ++ (quote k ++ ':' :: ' ' ::
      prettyTo (level + 1) v (prettyEntries (level + 1) es (newLine level ++ '\x7d' :: rest))))
  | v, rest => compactTo v rest

/-- The further items of an array, followed by some text. -/
def prettyItems (level : Nat) : List Json → List Char → List Char
  | [], rest => rest
  | v :: vs, rest => ',' :: (newLine level ++ prettyTo level v (prettyItems level vs rest))

/-- The further entries of an object, followed by some text. -/
def prettyEntries (level : Nat) : List (String × Json) → List Char → List Char
  | [], rest => rest
  | (k, v) :: es, rest =>
    ',' :: (newLine level ++ (quote k ++ ':' :: ' ' ::
      prettyTo level v (prettyEntries level es rest)))

end

/-- A value over several lines. -/
def pretty (v : Json) : String := String.ofList (prettyTo 0 v [])

end FlowAnalysis.Json
