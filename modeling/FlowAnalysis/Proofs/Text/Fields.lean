import FlowAnalysis.Text.Blank
import Mathlib.Data.List.Forall2

/-!
# Fields between blanks

A text falls into fields at its blanks.  The same is said of any list and any kind of blanks, so that
the fields of a text can be compared with those of its code units.

## Main definitions

* `fieldsBetween` — the nonempty pieces of a list between blanks.
* `Apart` — two lists that are made up of stretches of fields and of blanks in the same order.

## Main results

* `splitAt_eq_splitOnP`, `words_eq_fieldsBetween` — splitting texts is splitting lists.
* `Apart.forall₂_fieldsBetween` — **lists that are made up in the same way have fields that
  correspond.**
-/

namespace FlowAnalysis.Text

/-- Splitting a text is splitting a list. -/
theorem splitAt_eq_splitOnP (cut : Char → Bool) (text : List Char) :
    splitAt cut text = text.splitOnP cut := by
  induction text with
  | nil => rfl
  | cons c text ih =>
    rw [splitAt, ih, List.splitOnP_cons_eq_if_modifyHead]
    cases hpieces : text.splitOnP cut with
    | nil => exact absurd hpieces (List.splitOnP_ne_nil cut text)
    | cons piece pieces => cases cut c <;> rfl

section Fields

variable {α β : Type} (blank : α → Bool)

/-- The nonempty pieces of a list between blanks. -/
def fieldsBetween (l : List α) : List (List α) := (l.splitOnP blank).filter (!·.isEmpty)

variable {blank} {blank' : β → Bool}

/-- A list without blanks is a field, unless it is empty. -/
theorem fieldsBetween_of_forall_not {l : List α} (h : ∀ x ∈ l, blank x = false) :
    fieldsBetween blank l = if l.isEmpty then [] else [l] := by
  rw [fieldsBetween, List.splitOnP_eq_singleton h, List.filter_singleton]
  cases l.isEmpty <;> rfl

/-- Fields end at a blank. -/
theorem fieldsBetween_append_cons {x : α} (hx : blank x) (l m : List α) :
    fieldsBetween blank (l ++ x :: m) = fieldsBetween blank l ++ fieldsBetween blank m := by
  rw [fieldsBetween, List.splitOnP_append_cons l m hx, List.filter_append]
  rfl

/-- Fields end at some blanks. -/
theorem fieldsBetween_append_blanks {b : List α} (hb : ∀ x ∈ b, blank x) (hne : b ≠ [])
    (l m : List α) :
    fieldsBetween blank (l ++ (b ++ m)) = fieldsBetween blank l ++ fieldsBetween blank m := by
  induction b generalizing l with
  | nil => exact absurd rfl hne
  | cons x b ih =>
    have hx := hb x List.mem_cons_self
    rw [List.cons_append, fieldsBetween_append_cons hx]
    cases b with
    | nil => rfl
    | cons y b =>
      have hrest := ih (fun z hz => hb z (List.mem_cons_of_mem x hz)) (List.cons_ne_nil y b) []
      rw [List.nil_append] at hrest
      rw [hrest]
      rfl

variable (blank blank') in
/-- Two lists are made up of stretches of fields, which are related, and of blanks, in the same
order. -/
inductive Apart (R : List α → List β → Prop) : List α → List β → Prop
  /-- Nothing is left. -/
  | nil : Apart R [] []
  /-- A stretch of a field in both lists. -/
  | solid {u us w ws} : u ≠ [] → w ≠ [] → (∀ x ∈ u, blank x = false) →
      (∀ y ∈ w, blank' y = false) → R u w → Apart R us ws → Apart R (u ++ us) (w ++ ws)
  /-- Blanks in both lists. -/
  | blanks {u us w ws} : u ≠ [] → w ≠ [] → (∀ x ∈ u, blank x) → (∀ y ∈ w, blank' y) →
      Apart R us ws → Apart R (u ++ us) (w ++ ws)

variable {R : List α → List β → Prop} {us : List α} {ws : List β}

/-- **Lists that are made up in the same way have fields that correspond**, if what is related stays
so when it is joined. -/
theorem Apart.forall₂_fieldsBetween (h : Apart blank blank' R us ws)
    (hjoin : ∀ u w u' w', R u w → R u' w' → R (u ++ u') (w ++ w')) :
    List.Forall₂ R (fieldsBetween blank us) (fieldsBetween blank' ws) := by
  -- The induction carries the beginning of a field that has been read so far.
  suffices hall : ∀ u w, (u = [] ∧ w = [] ∨ u ≠ [] ∧ w ≠ [] ∧ R u w) →
      (∀ x ∈ u, blank x = false) → (∀ y ∈ w, blank' y = false) →
      List.Forall₂ R (fieldsBetween blank (u ++ us)) (fieldsBetween blank' (w ++ ws)) from
    hall [] [] (.inl ⟨rfl, rfl⟩) (List.forall_mem_nil _) (List.forall_mem_nil _)
  have hone : ∀ u w, (u = [] ∧ w = [] ∨ u ≠ [] ∧ w ≠ [] ∧ R u w) →
      (∀ x ∈ u, blank x = false) → (∀ y ∈ w, blank' y = false) →
      List.Forall₂ R (fieldsBetween blank u) (fieldsBetween blank' w) := by
    rintro u w huw hu hw
    rw [fieldsBetween_of_forall_not hu, fieldsBetween_of_forall_not hw]
    rcases huw with ⟨rfl, rfl⟩ | ⟨hune, hwne, hR⟩
    · exact .nil
    · simpa [hune, hwne] using hR
  induction h with
  | nil =>
    intro u w huw hu hw
    rw [List.append_nil, List.append_nil]
    exact hone u w huw hu hw
  | @solid u' us w' ws hune hwne hu' hw' hR _ ih =>
    intro u w huw hu hw
    rw [← List.append_assoc, ← List.append_assoc]
    refine ih (u ++ u') (w ++ w') (.inr ⟨by simp [hune], by simp [hwne], ?_⟩)
      (by simpa [or_imp, forall_and] using ⟨hu, hu'⟩)
      (by simpa [or_imp, forall_and] using ⟨hw, hw'⟩)
    rcases huw with ⟨rfl, rfl⟩ | ⟨-, -, huw⟩
    · exact hR
    · exact hjoin _ _ _ _ huw hR
  | @blanks b us b' ws hbne hbne' hb hb' _ ih =>
    intro u w huw hu hw
    rw [fieldsBetween_append_blanks hb hbne, fieldsBetween_append_blanks hb' hbne']
    exact List.rel_append (hone u w huw hu hw) (ih [] [] (.inl ⟨rfl, rfl⟩) (List.forall_mem_nil _) (List.forall_mem_nil _))

end Fields

/-- The words of a text are the fields between its blanks. -/
theorem words_eq_fieldsBetween (text : List Char) : words text = fieldsBetween isBlank text := by
  rw [words, fieldsBetween, splitAt_eq_splitOnP]
  congr 1
  funext w
  cases w <;> rfl

end FlowAnalysis.Text
