import FlowAnalysis.Text.Edit

/-!
# Edits at the offsets of the text as it was

Edits that follow one another without overlap can be carried out from the last to the first, and
the result is that of a single pass over the text which puts every replacement in its place.

## Main definitions

* `Edit.substitute` — all replacements at once.
* `Edit.Ordered` — edits that follow one another.

## Main results

* `Edit.substitute_kept` — what stands in front of all edits is kept.
* `Edit.applyEach_reverse` — **carrying out edits from the last to the first is substitution.**
-/

namespace FlowAnalysis.Text.Edit

/-- The text behind an offset with all replacements at once; the edits are given in the order of
their offsets. -/
def substitute (text : List Char) : Nat → List Edit → List Char
  | pos, [] => text.drop pos
  | pos, e :: es =>
    (text.take e.span.start).drop pos ++ e.replacement ++ substitute text e.span.stop es

@[simp] theorem substitute_nil (text : List Char) (pos : Nat) :
    substitute text pos [] = text.drop pos := rfl

@[simp] theorem substitute_cons (text : List Char) (pos : Nat) (e : Edit) (es : List Edit) :
    substitute text pos (e :: es) =
      (text.take e.span.start).drop pos ++ e.replacement ++ substitute text e.span.stop es := rfl

/-- Edits that follow one another between two offsets. -/
def Ordered (stop : Nat) : Nat → List Edit → Prop
  | pos, [] => pos ≤ stop
  | pos, e :: es => pos ≤ e.span.start ∧ e.span.start ≤ e.span.stop ∧ Ordered stop e.span.stop es

theorem Ordered.le {stop : Nat} : ∀ {pos : Nat} {es : List Edit}, Ordered stop pos es →
    pos ≤ stop := by
  intro pos es
  induction es generalizing pos with
  | nil => exact id
  | cons e es ih =>
    rintro ⟨h1, h2, h3⟩
    exact Nat.le_trans h1 (Nat.le_trans h2 (ih h3))

theorem Ordered.le_of_mem {stop : Nat} {pos : Nat} {es : List Edit} (h : Ordered stop pos es)
    {e : Edit} (he : e ∈ es) : pos ≤ e.span.start := by
  induction es generalizing pos with
  | nil => simp at he
  | cons f fs ih =>
    obtain ⟨h1, h2, h3⟩ := h
    rcases List.mem_cons.1 he with rfl | he
    · exact h1
    · exact Nat.le_trans h1 (Nat.le_trans h2 (ih h3 he))

theorem Ordered.span_le {stop : Nat} {pos : Nat} {es : List Edit} (h : Ordered stop pos es)
    {e : Edit} (he : e ∈ es) : e.span.start ≤ e.span.stop := by
  induction es generalizing pos with
  | nil => simp at he
  | cons f fs ih =>
    rcases List.mem_cons.1 he with rfl | he
    · exact h.2.1
    · exact ih h.2.2 he

theorem Ordered.mono {stop pos pos' : Nat} {es : List Edit} (h : Ordered stop pos es)
    (hle : pos' ≤ pos) : Ordered stop pos' es := by
  cases es with
  | nil => exact Nat.le_trans hle h
  | cons e es => exact ⟨Nat.le_trans hle h.1, h.2⟩

/-- Edits that follow one another do not overlap. -/
theorem Ordered.pairwise {stop : Nat} {pos : Nat} {es : List Edit} (h : Ordered stop pos es) :
    es.Pairwise fun a b => a.span.stop ≤ b.span.start := by
  induction es generalizing pos with
  | nil => exact .nil
  | cons e es ih =>
    obtain ⟨_, _, h⟩ := h
    exact .cons (fun f hf => h.le_of_mem hf) (ih h)

theorem take_append_drop_take {text : List Char} {i j : Nat} (h : i ≤ j) :
    text.take i ++ (text.take j).drop i = text.take j := by
  have hi : (text.take j).take i = text.take i := by
    rw [List.take_take, Nat.min_eq_left h]
  rw [← hi, List.take_append_drop]

/-- **Carrying out edits from the last to the first is substitution.** -/
theorem applyEach_reverse {text : List Char} {pos : Nat} {es : List Edit}
    (h : Ordered text.length pos es) :
    applyEach text es.reverse = text.take pos ++ substitute text pos es := by
  induction es generalizing pos with
  | nil => simp
  | cons e es ih =>
    obtain ⟨hpos, hspan, hrest⟩ := h
    have hlen : (text.take e.span.stop).length = e.span.stop := by
      rw [List.length_take, Nat.min_eq_left hrest.le]
    have htake : (text.take e.span.stop).take e.span.start = text.take e.span.start := by
      rw [List.take_take, Nat.min_eq_left hspan]
    rw [List.reverse_cons, applyEach_append, ih hrest, applyEach_cons, applyEach_nil, apply]
    rw [List.take_append_of_le_length (Nat.le_trans hspan (Nat.le_of_eq hlen.symm)), htake,
      List.drop_append_of_le_length (Nat.le_of_eq hlen.symm),
      List.drop_of_length_le (Nat.le_of_eq hlen),
      List.nil_append, substitute_cons, ← List.append_assoc, ← List.append_assoc,
      take_append_drop_take hpos]

theorem drop_take_append {text : List Char} {i j k : Nat} (hij : i ≤ j) (hjk : j ≤ k)
    (hj : j ≤ text.length) :
    (text.take k).drop i = (text.take j).drop i ++ (text.take k).drop j := by
  have hlen : i ≤ (text.take j).length := by
    rw [List.length_take, Nat.min_eq_left hj]
    exact hij
  rw [← List.drop_append_of_le_length hlen, take_append_drop_take hjk]

/-- What stands in front of all edits is kept. -/
theorem substitute_kept {text : List Char} {i j : Nat} {es : List Edit} (hij : i ≤ j)
    (h : Ordered text.length j es) :
    substitute text i es = (text.take j).drop i ++ substitute text j es := by
  cases es with
  | nil =>
    have hcut := drop_take_append hij h.le h.le
    rwa [List.take_length] at hcut
  | cons e es =>
    rw [substitute_cons, drop_take_append hij h.1 h.le, substitute_cons, List.append_assoc,
      List.append_assoc, List.append_assoc]

end FlowAnalysis.Text.Edit
