import FlowAnalysis.Text.Position

/-!
# Edits of a text

An edit replaces a range of a text.  Edits are given at the offsets of the text as it was, so
they are carried out from the end of the text towards its start: what is still to be replaced
then keeps its offset.

## Main definitions

* `Edit` — a range and what takes its place.
* `Edit.apply` — the text after one edit.
* `Edit.applyEach` — the text after several edits, one after the other.
-/

namespace FlowAnalysis.Text

/-- A range of a text and what takes its place. -/
structure Edit where
  span : Span
  replacement : List Char
  deriving DecidableEq, Repr

namespace Edit

/-- An edit that removes nothing. -/
def insertAt (offset : Nat) (replacement : List Char) : Edit := ⟨⟨offset, offset⟩, replacement⟩

/-- The text after one edit. -/
def apply (text : List Char) (e : Edit) : List Char :=
  text.take e.span.start ++ e.replacement ++ text.drop e.span.stop

/-- The text after several edits, one after the other. -/
def applyEach (text : List Char) (edits : List Edit) : List Char := edits.foldl apply text

@[simp] theorem applyEach_nil (text : List Char) : applyEach text [] = text := rfl

@[simp] theorem applyEach_cons (text : List Char) (e : Edit) (es : List Edit) :
    applyEach text (e :: es) = applyEach (apply text e) es := rfl

theorem applyEach_append (text : List Char) (es fs : List Edit) :
    applyEach text (es ++ fs) = applyEach (applyEach text es) fs := by
  simp [applyEach]

end Edit

end FlowAnalysis.Text
