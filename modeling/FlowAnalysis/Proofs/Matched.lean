import FlowAnalysis.Proofs.Related
import Mathlib.Data.List.Perm.Basic

/-!
# Lists that match

Two lists match under a relation if their elements are related one by one once the first list is put
into another order.  What does not depend on the order is the same for lists that match.

## Main definitions

* `List.Matched` — lists that match.

## Main results

* `List.Matched.of_map_perm` — lists match if what is made of their elements is the same but for the
  order.
* `List.Matched.filterMap`, `List.Matched.filterMap_perm` — what is made of lists that match.
-/

variable {α α' β β' γ : Type} {R : α' → α → Prop} {S : β' → β → Prop}

namespace List

/-- The elements of a list are related one by one to those of another one, once it is put into
another order. -/
def Matched (R : α' → α → Prop) (l' : List α') (l : List α) : Prop :=
  ∃ m, l'.Perm m ∧ List.Forall₂ R m l

namespace Matched

variable {l' : List α'} {l : List α}

theorem of_forall₂ (h : List.Forall₂ R l' l) : Matched R l' l := ⟨l', .refl l', h⟩

theorem imp {R' : α' → α → Prop} (h : Matched R l' l) (hR : ∀ x' x, R x' x → R' x' x) :
    Matched R' l' l := by
  obtain ⟨m, hperm, hrel⟩ := h
  exact ⟨m, hperm, hrel.imp hR⟩

/-- **Lists match if what is made of their elements is the same but for the order.** -/
theorem of_map_perm {F' : α' → γ} {F : α → γ} (h : (l'.map F').Perm (l.map F)) :
    Matched (fun x' x => F' x' = F x) l' l := by
  induction l generalizing l' with
  | nil =>
    obtain rfl := List.map_eq_nil_iff.1 h.eq_nil
    exact ⟨[], .nil, .nil⟩
  | cons x l ih =>
    obtain ⟨x', hx', heq⟩ := List.mem_map.1 (h.symm.subset List.mem_cons_self)
    obtain ⟨front, back, rfl⟩ := List.append_of_mem hx'
    have hperm : (front ++ x' :: back).Perm (x' :: (front ++ back)) := List.perm_middle
    have hrest : ((front ++ back).map F').Perm (l.map F) := by
      have hcons := (hperm.map F').symm.trans h
      rw [List.map_cons, List.map_cons, heq] at hcons
      exact hcons.cons_inv
    obtain ⟨m, hm, hrel⟩ := ih hrest
    exact ⟨x' :: m, hperm.trans (hm.cons x'), .cons heq hrel⟩

/-- The elements of the second list that are related are elements of it. -/
theorem mem (h : Matched R l' l) : Matched (fun x' x => x ∈ l ∧ R x' x) l' l := by
  obtain ⟨m, hm, hrel⟩ := h
  exact ⟨m, hm, hrel.imp_of_mem fun _ _ hx hR => ⟨hx, hR⟩⟩

/-- Both lists may be put into another order. -/
theorem of_perm {m' : List α'} {m : List α} (h : Matched R m' m) (hl' : l'.Perm m')
    (hl : l.Perm m) : Matched R l' l := by
  obtain ⟨k, hk, hrel⟩ := h
  have hcomp : Relation.Comp (List.Forall₂ R) List.Perm k l := ⟨m, hrel, hl.symm⟩
  rw [List.forall₂_comp_perm_eq_perm_comp_forall₂] at hcomp
  obtain ⟨n, hn, hrel⟩ := hcomp
  exact ⟨n, hl'.trans (hk.trans hn), hrel⟩

theorem append {k' : List α'} {k : List α} (h : Matched R l' l) (hk : Matched R k' k) :
    Matched R (l' ++ k') (l ++ k) := by
  obtain ⟨m, hm, hrel⟩ := h
  obtain ⟨n, hn, hrel'⟩ := hk
  exact ⟨m ++ n, hm.append hn, List.rel_append hrel hrel'⟩

theorem flatMap {F' : α' → List β'} {F : α → List β} (h : Matched R l' l)
    (hF : ∀ x' x, R x' x → List.Forall₂ S (F' x') (F x)) :
    Matched S (l'.flatMap F') (l.flatMap F) := by
  obtain ⟨m, hm, hrel⟩ := h
  refine ⟨m.flatMap F', hm.flatMap_right F', ?_⟩
  exact List.rel_flatMap hrel fun x' x hx => hF x' x hx

theorem filterMap {F' : α' → Option β'} {F : α → Option β} (h : Matched R l' l)
    (hF : ∀ x' x, R x' x → Option.Rel S (F' x') (F x)) :
    Matched S (l'.filterMap F') (l.filterMap F) := by
  obtain ⟨m, hm, hrel⟩ := h
  exact ⟨m.filterMap F', hm.filterMap F', List.rel_filterMap (fun x' x hx => hF x' x hx) hrel⟩

/-- The same things that are made of lists that match come in another order. -/
theorem filterMap_perm {F' : α' → Option γ} {F : α → Option γ} (h : Matched R l' l)
    (hF : ∀ x' x, R x' x → F' x' = F x) : (l'.filterMap F').Perm (l.filterMap F) := by
  obtain ⟨m, hm, hrel⟩ := h
  rw [← hrel.filterMap_eq hF]
  exact hm.filterMap F'

theorem any_eq {p' : α' → Bool} {p : α → Bool} (h : Matched R l' l)
    (hp : ∀ x' x, R x' x → p' x' = p x) : l'.any p' = l.any p := by
  obtain ⟨m, hm, hrel⟩ := h
  rw [hm.any_eq, hrel.any_eq hp]

theorem all_eq {p' : α' → Bool} {p : α → Bool} (h : Matched R l' l)
    (hp : ∀ x' x, R x' x → p' x' = p x) : l'.all p' = l.all p := by
  rw [← Bool.not_inj_iff, List.not_all_eq_any_not, List.not_all_eq_any_not]
  exact h.any_eq fun x' x hx => by rw [hp x' x hx]

theorem length_eq (h : Matched R l' l) : l'.length = l.length := by
  obtain ⟨m, hm, hrel⟩ := h
  rw [hm.length_eq, hrel.length_eq]

theorem singleton {x' : α'} {x : α} (h : Matched R [x'] [x]) : R x' x := by
  obtain ⟨m, hm, hrel⟩ := h
  rw [List.singleton_perm] at hm
  rw [← hm] at hrel
  cases hrel with
  | cons hx _ => exact hx

end Matched

end List
