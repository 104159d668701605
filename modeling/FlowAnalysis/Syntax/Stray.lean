import FlowAnalysis.Syntax.Lexeme
import FlowAnalysis.Text.Position

/-!
# Strays

Where a text fits nowhere it is passed over piece by piece.  A piece is a lexeme that is recognised
without regard to what stands around it, or else a run of characters in which no lexeme begins.

## Main definitions

* `Lexeme.looseEnd?` — the end of the lexeme that begins at an offset, whatever stands around it.
* `Lexeme.brokenEnd` — the end of a run of characters in which no lexeme begins.
* `Stray`, `Stray.at?` — a piece to pass over.
-/

namespace FlowAnalysis.Syntax

namespace Lexeme

/-- All punctuation marks, longer marks before their beginnings. -/
def marks : List String :=
  [">>>=", "===", "!==", "**=", "<<=", ">>=", ">>>", "&&=", "||=", "??=", "...", "-?:", "+?:",
   "=>", "==", "!=", "<=", ">=", "&&", "||", "??", "?.", "?:", "++", "--", "+=", "-=", "*=", "/=",
   "%=", "&=", "|=", "^=", "<<", ">>", "**", "\x7b|", "|\x7d", "$\x7b", "+", "-", "*", "/", "%",
   "<", ">", "&", "|", "^", "!", "~", "=", "?", ".", ",", ":", ";", "@", "(", ")", "[", "]",
   "\x7b", "\x7d", "\"", "'", "\x60"]

/-- The end of the punctuation mark that begins at an offset. -/
def markEnd? (text : Chars) (i : Nat) : Option Nat :=
  (marks.find? fun m => hasAt text m.toList i).map (i + ·.length)

/-- The end of the private name, or of the line that names an interpreter, that begins at an
offset. -/
def hashEnd? (text : Chars) (i : Nat) : Option Nat :=
  if hasAt text ['#', '!'] i then some (runEnd text (fun c => isPlain c && c ≠ '\n') i)
  else if text[i]? = some '#' then wordEnd? text (i + 1)
  else none

/-- The end of the lexeme that begins at an offset, whatever stands around it. -/
def looseEnd? (text : Chars) (i : Nat) : Option Nat :=
  (wordEnd? text i).or <| (numberEnd? text i).or <| (hashEnd? text i).or (markEnd? text i)

/-- The end of the hexadecimal digits at an offset, at most `n` of them. -/
def hexRunEnd (text : Chars) (n i : Nat) : Nat := skipWhile text isHexDigit n i

/-- The end of what was taken for a lexeme before it turned out to be none: the part of an escape
sequence that is well formed, or else one character. -/
def brokenPieceEnd (text : Chars) (i : Nat) : Nat :=
  if text[i]? ≠ some '\\' then i + 1
  else match text[i + 1]? with
    | some 'x' => hexRunEnd text 1 (i + 2)
    | some 'u' =>
      if text[i + 2]? = some '\x7b' then runEnd text isHexDigit (i + 3)
      else hexRunEnd text 3 (i + 2)
    | _ => i + 1

/-- The end of a run of characters in which no lexeme begins, in `n` pieces at most. -/
def brokenUpTo (text : Chars) : Nat → Nat → Nat
  | 0, i => i
  | n + 1, i =>
    let j := brokenPieceEnd text i
    let k := skipBlanks text j
    if text.size ≤ k || (looseEnd? text k).isSome || (commentEnd? text k).isSome then j
    else brokenUpTo text n k

/-- The end of the run of characters in which no lexeme begins and that begins at an offset. -/
def brokenEnd (text : Chars) (i : Nat) : Nat := brokenUpTo text (text.size - i) i

/-- The offset after the blanks and comments at an offset, after `n` comments at most. -/
def pastExtrasUpTo (text : Chars) : Nat → Nat → Nat
  | 0, i => skipBlanks text i
  | n + 1, i =>
    let j := skipBlanks text i
    match commentEnd? text j with
    | some k => pastExtrasUpTo text n k
    | none => j

/-- The offset after the blanks and comments at an offset. -/
def pastExtras (text : Chars) (i : Nat) : Nat := pastExtrasUpTo text (text.size - i) i

end Lexeme

/-- A piece of text that is passed over. -/
structure Stray where
  span : Span
  /-- Whether the piece is a lexeme. -/
  isLexeme : Bool
  deriving Repr, Inhabited

/-- The piece to pass over that begins at an offset, unless the text ends there. -/
def Stray.at? (text : Chars) (i : Nat) : Option Stray :=
  if text.size ≤ i then none
  else match Lexeme.looseEnd? text i with
    | some j => some ⟨⟨i, j⟩, true⟩
    | none => some ⟨⟨i, Lexeme.brokenEnd text i⟩, false⟩

/-- The pieces of the text between two offsets, `n` at most. -/
def Stray.between (text : Chars) : Nat → Nat → Nat → List Stray
  | 0, _, _ => []
  | n + 1, i, stop =>
    let j := Lexeme.pastExtras text i
    if stop ≤ j then []
    else match Stray.at? text j with
      | some s => s :: Stray.between text n s.span.stop stop
      | none => []

end FlowAnalysis.Syntax
