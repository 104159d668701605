/-!
# Positions in a text

A place in a text is an offset in characters; a reader is shown lines and columns.

## Main definitions

* `Location` — a line and a column, both counted from one.
* `Span` — a half-open range of character offsets.
* `Location.after` — the location reached once a text has been read.
-/

namespace FlowAnalysis

/-- A line and a column, both counted from one; columns count UTF-8 bytes. -/
structure Location where
  line : Nat
  column : Nat
  deriving DecidableEq, Repr, Inhabited

/-- A half-open range of character offsets. -/
structure Span where
  start : Nat
  stop : Nat
  deriving DecidableEq, Repr, Inhabited

namespace Location

/-- The location of the first character of a text. -/
def first : Location := ⟨1, 1⟩

/-- The location reached by reading one more character. -/
def next (l : Location) (c : Char) : Location :=
  if c = '\n' then ⟨l.line + 1, 1⟩ else ⟨l.line, l.column + c.utf8Size⟩

/-- The location reached by reading a whole text. -/
def after (text : List Char) : Location := text.foldl next first

@[simp] theorem after_nil : after [] = first := rfl

@[simp] theorem after_concat (text : List Char) (c : Char) :
    after (text ++ [c]) = (after text).next c := by
  simp [after]

/-- Reading order of locations. -/
def le (a b : Location) : Prop := a.line < b.line ∨ a.line = b.line ∧ a.column ≤ b.column

end Location

end FlowAnalysis
