import FlowAnalysis.Proofs.Bracing.Walk
import FlowAnalysis.Proofs.Trimming.Arguments

/-!
# Arguments in a normal form

An argument is in the normal form what it is in the source: literals have the same values, and the
nodes at which the entries of objects stand are twins.

## Main results

* `Twin.erase_classify` — **an expression is classified as in the source.**
* `Twin.forall₂_entries` — so are the entries of an object.
-/

namespace FlowAnalysis

open Syntax

/-- Entries that say the same at twins. -/
structure Entry.Twins (s' s : Source) (e' e : Entry) : Prop where
  erase : e'.erase = e.erase
  valueNode? : Option.Rel (Twin s' s) e'.valueNode? e.valueNode?

namespace Twin

variable {s' s : Source} {t' t : Tree}

theorem numberArgument (h : Twin s' s t' t) (ht : t.is .number) (negative : Bool) :
    s'.numberArgument negative t' = s.numberArgument negative t := by
  rw [Source.numberArgument, Source.numberArgument, h.chars_of_is ht (.inl rfl)]

theorem signedArgument (h : Twin s' s t' t) (ht : t.isOwner = false) :
    s'.signedArgument t' = s.signedArgument t := by
  have hoperator := h.rel_field? ht .operator
  have hargument := h.rel_bare_field? ht .argument
  unfold Source.signedArgument
  generalize t'.field? .operator = operator' at *
  generalize t.field? .operator = operator at *
  generalize t'.field? .argument = argument' at *
  generalize t.field? .argument = argument at *
  cases hoperator with
  | none => rfl
  | some hoperator =>
    cases hargument with
    | none => rfl
    | some hargument =>
      simp only [hoperator.isToken_eq, hargument.is_eq]
      split
      · next hnumber => rw [hargument.numberArgument (Bool.and_eq_true_iff.1 hnumber).2]
      · rfl

theorem leafArgument (h : Twin s' s t' t) : s'.leafArgument t' = s.leafArgument t := by
  unfold Source.leafArgument
  rw [h.label, h.stringValue?]
  split
  case h_3 hl => rw [h.numberArgument (Tree.is_iff.2 hl)]
  case h_8 hl => rw [h.signedArgument (Tree.isOwner_of_is (Tree.is_iff.2 hl) rfl)]
  all_goals rfl

section Children

variable (h : Twin s' s t' t) (ih : ∀ c ∈ t.children, ∀ c', Twin s' s c' c →
  (s'.classify c').erase = (s.classify c).erase ∧ (s'.entry c').erase = (s.entry c).erase)

include h ih

theorem erase_classify_of_children : (s'.classify t').erase = (s.classify t).erase := by
  have hnamed : ∀ {k}, t.is k → k.owner = false → List.Forall₂ (fun c' c =>
      (s'.classify c').erase = (s.classify c).erase ∧ (s'.entry c').erase = (s.entry c).erase)
      t'.named t.named := fun ht hk =>
    (h.forall₂_named (Tree.isOwner_of_is ht hk)).imp_of_mem fun c' c hc =>
      ih c (Tree.mem_children_of_named hc) c'
  rw [Source.classify_eq, Source.classify_eq s t, h.isWrapper_eq, h.is_eq, h.is_eq, h.leafArgument]
  split
  · next hwrapper =>
    have hfirst := (h.rel_firstNamed? (Tree.isOwner_of_isAny hwrapper (by decide))).imp_of_eq
      fun c' c hc => ih c (Tree.mem_children_of_named (List.mem_of_head? hc)) c'
    generalize t'.firstNamed? = first' at hfirst
    generalize t.firstNamed? = first at hfirst
    cases hfirst with
    | none => rw [Option.map_none, Option.map_none]
    | some hc => exact hc.1
  · split
    · next hobject =>
      rw [Argument.erase, Argument.erase, Entry.eraseAll_eq, Entry.eraseAll_eq, List.map_map,
        List.map_map]
      exact congrArg _ ((hnamed hobject rfl).map_eq fun _ _ hc => hc.2)
    · split
      · next harray =>
        rw [h.any_is_children (Tree.isEnclosing_of_is harray rfl)]
        split
        · rfl
        · rw [Argument.erase, Argument.erase, Argument.eraseAll_eq, Argument.eraseAll_eq,
            List.map_map, List.map_map]
          exact congrArg _ ((hnamed harray rfl).map_eq fun _ _ hc => hc.1)
      · rfl

theorem erase_entry_of_children : (s'.entry t').erase = (s.entry t).erase := by
  rw [Source.entry_eq, Source.entry_eq s t, h.is_eq, h.is_eq, h.is_eq]
  split
  · next hpair =>
    have howner : t.isOwner = false := Tree.isOwner_of_is hpair rfl
    have hkey := h.rel_field? howner .key
    have hvalue := (h.rel_field? howner .value).imp_of_eq fun c' c hc =>
      ih c (Tree.field?_eq_some hc).1 c'
    generalize t'.field? .key = key' at *
    generalize t.field? .key = key at *
    generalize t'.field? .value = value' at *
    generalize t.field? .value = value at *
    cases hkey with
    | none => rfl
    | some hkey =>
      cases hvalue with
      | none => rfl
      | @some value' value hvalue =>
        simp only [hkey.propertyName?]
        cases s.propertyName? _ with
        | none => rfl
        | some name => simp only [Entry.erase, hvalue.1]
  · split
    · next hname => rw [h.textOf_of_is hname (.inl rfl)]; rfl
    · split <;> rfl

end Children

theorem erase_both (h : Twin s' s t' t) :
    (s'.classify t').erase = (s.classify t).erase ∧ (s'.entry t').erase = (s.entry t).erase := by
  induction t using Tree.induction generalizing t' with
  | node l r span ts ih =>
    have ih : ∀ c ∈ (Syntax.Tree.node l r span ts).children, ∀ c', Twin s' s c' c →
        (s'.classify c').erase = (s.classify c).erase ∧ (s'.entry c').erase = (s.entry c).erase :=
      fun c hc _ htwin => ih c hc htwin
    exact ⟨h.erase_classify_of_children ih, h.erase_entry_of_children ih⟩

/-- **An expression is classified as in the source**, but for the nodes of its entries. -/
theorem erase_classify (h : Twin s' s t' t) : (s'.classify t').erase = (s.classify t).erase :=
  h.erase_both.1

/-- The value of an entry stands at a twin. -/
theorem entry (h : Twin s' s t' t) : Entry.Twins s' s (s'.entry t') (s.entry t) := by
  refine ⟨h.erase_both.2, ?_⟩
  rw [Source.entry_eq, Source.entry_eq s t, h.is_eq, h.is_eq, h.is_eq]
  split
  · next hpair =>
    have howner : t.isOwner = false := Tree.isOwner_of_is hpair rfl
    have hkey := h.rel_field? howner .key
    have hvalue := h.rel_field? howner .value
    generalize t'.field? .key = key' at *
    generalize t.field? .key = key at *
    generalize t'.field? .value = value' at *
    generalize t.field? .value = value at *
    cases hkey with
    | none => exact .none
    | some hkey =>
      cases hvalue with
      | none => exact .none
      | @some value' value hvalue =>
        simp only [hkey.propertyName?]
        cases s.propertyName? _ with
        | none => exact .none
        | some name => exact .some hvalue
  · split
    · exact .some h
    · split <;> exact .none

/-- The entries of an object. -/
theorem forall₂_entries (h : Twin s' s t' t) (ht : t.is .object) :
    List.Forall₂ (Entry.Twins s' s) (s'.classify t').entries (s.classify t).entries := by
  rw [s'.entries_classify (h.is_eq _ ▸ ht), s.entries_classify ht, List.forall₂_map_left_iff,
    List.forall₂_map_right_iff]
  exact (h.forall₂_named (Tree.isOwner_of_is ht rfl)).imp fun _ _ hc => hc.entry

end Twin

end FlowAnalysis
