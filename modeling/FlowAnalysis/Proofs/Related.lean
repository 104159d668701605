import Mathlib.Data.List.Forall2

/-!
# Related lists and options

What is made of two lists, or of two options, whose elements are related one by one: where the same
is made of related elements the results are equal, and where related things are made of them the
results are related.

## Main results

* `List.Forall₂.map_eq`, `List.Forall₂.filterMap_eq`, `List.Forall₂.flatMap_eq` — lists.
* `Option.Rel.map`, `Option.Rel.bind`, `Option.Rel.map_eq`, `Option.Rel.bind_eq` — options.
-/

variable {α α' β β' γ : Type} {R : α' → α → Prop} {S : β' → β → Prop}

/-! ### Lists -/

namespace List.Forall₂

variable {l' : List α'} {l : List α}

theorem map_eq {F' : α' → γ} {F : α → γ} (h : List.Forall₂ R l' l)
    (hF : ∀ x' x, R x' x → F' x' = F x) : l'.map F' = l.map F := by
  induction h with
  | nil => rfl
  | cons hx _ ih => rw [List.map_cons, List.map_cons, hF _ _ hx, ih]

theorem filterMap_eq {F' : α' → Option γ} {F : α → Option γ} (h : List.Forall₂ R l' l)
    (hF : ∀ x' x, R x' x → F' x' = F x) : l'.filterMap F' = l.filterMap F := by
  induction h with
  | nil => rfl
  | cons hx _ ih => rw [List.filterMap_cons, List.filterMap_cons, hF _ _ hx, ih]

theorem flatMap_eq {F' : α' → List γ} {F : α → List γ} (h : List.Forall₂ R l' l)
    (hF : ∀ x' x, R x' x → F' x' = F x) : l'.flatMap F' = l.flatMap F := by
  induction h with
  | nil => rfl
  | cons hx _ ih => rw [List.flatMap_cons, List.flatMap_cons, hF _ _ hx, ih]

theorem countP_eq {p' : α' → Bool} {p : α → Bool} (h : List.Forall₂ R l' l)
    (hp : ∀ x' x, R x' x → p' x' = p x) : l'.countP p' = l.countP p := by
  induction h with
  | nil => rfl
  | cons hx _ ih => rw [List.countP_cons, List.countP_cons, hp _ _ hx, ih]

theorem any_eq {p' : α' → Bool} {p : α → Bool} (h : List.Forall₂ R l' l)
    (hp : ∀ x' x, R x' x → p' x' = p x) : l'.any p' = l.any p := by
  induction h with
  | nil => rfl
  | cons hx _ ih => rw [List.any_cons, List.any_cons, hp _ _ hx, ih]

theorem isEmpty_eq (h : List.Forall₂ R l' l) : l'.isEmpty = l.isEmpty := by
  cases h <;> rfl

theorem filter {q : α' → Bool} {p : α → Bool} (h : List.Forall₂ R l' l)
    (hp : ∀ x' x, R x' x → q x' = p x) : List.Forall₂ R (l'.filter q) (l.filter p) := by
  induction h with
  | nil => exact .nil
  | cons hx _ ih =>
    rw [List.filter_cons, List.filter_cons, hp _ _ hx]
    split
    · exact .cons hx ih
    · exact ih

/-- What relates the elements may be derived from which element of the second list it is. -/
theorem imp_of_mem {T : α' → α → Prop} (h : List.Forall₂ R l' l)
    (hR : ∀ x', ∀ x ∈ l, R x' x → T x' x) : List.Forall₂ T l' l := by
  induction h with
  | nil => exact .nil
  | cons hx _ ih =>
    refine .cons (hR _ _ List.mem_cons_self hx) (ih fun x' x hmem => ?_)
    exact hR x' x (List.mem_cons_of_mem _ hmem)

/-- The elements that are related are elements of the lists. -/
theorem mem (h : List.Forall₂ R l' l) :
    List.Forall₂ (fun x' x => x' ∈ l' ∧ x ∈ l ∧ R x' x) l' l := by
  rw [List.forall₂_iff_zip] at h ⊢
  exact ⟨h.1, fun hx => ⟨(List.of_mem_zip hx).1, (List.of_mem_zip hx).2, h.2 hx⟩⟩

/-- What the second list has as an element is related to an element of the first one. -/
theorem exists_of_mem_right (h : List.Forall₂ R l' l) {x : α} (hx : x ∈ l) :
    ∃ x' ∈ l', R x' x := by
  induction h with
  | nil => simp at hx
  | @cons y' y l' l hy _ ih =>
    rcases List.mem_cons.1 hx with rfl | hx
    · exact ⟨y', List.mem_cons_self, hy⟩
    · obtain ⟨x', hmem, hR⟩ := ih hx
      exact ⟨x', List.mem_cons_of_mem y' hmem, hR⟩

theorem flatMap_of_mem {F' : α' → List β'} {F : α → List β} (h : List.Forall₂ R l' l)
    (hF : ∀ x', ∀ x ∈ l, R x' x → List.Forall₂ S (F' x') (F x)) :
    List.Forall₂ S (l'.flatMap F') (l.flatMap F) := by
  have hall : List.Forall₂ (fun x' x => List.Forall₂ S (F' x') (F x)) l' l := h.imp_of_mem hF
  exact List.rel_flatMap hall fun _ _ hx => hx

/-- What is made of the elements and their places. -/
theorem mapIdx {F' : Nat → α' → β'} {F : Nat → α → β} (h : List.Forall₂ R l' l)
    (hF : ∀ i x' x, R x' x → S (F' i x') (F i x)) :
    List.Forall₂ S (l'.mapIdx F') (l.mapIdx F) := by
  induction h generalizing F' F with
  | nil => exact .nil
  | cons hx _ ih =>
    rw [List.mapIdx_cons, List.mapIdx_cons]
    exact .cons (hF 0 _ _ hx) (ih fun i => hF (i + 1))

theorem head? (h : List.Forall₂ R l' l) : Option.Rel R l'.head? l.head? := by
  cases h with
  | nil => exact .none
  | cons hx _ => exact .some hx

theorem find? {q : α' → Bool} {p : α → Bool} (h : List.Forall₂ R l' l)
    (hp : ∀ x' x, R x' x → q x' = p x) : Option.Rel R (l'.find? q) (l.find? p) := by
  rw [← List.head?_filter, ← List.head?_filter]
  exact (h.filter hp).head?

end List.Forall₂

/-! ### Options -/

namespace Option.Rel

variable {a' b' : Option α'} {a b : Option α}

theorem imp {R' : α' → α → Prop} (h : Option.Rel R a' a) (hR : ∀ x' x, R x' x → R' x' x) :
    Option.Rel R' a' a := by
  cases h with
  | none => exact .none
  | some hx => exact .some (hR _ _ hx)

/-- What relates the values may be derived from what the second value is. -/
theorem imp_of_eq {T : α' → α → Prop} (h : Option.Rel R a' a)
    (hR : ∀ x' x, a = Option.some x → R x' x → T x' x) : Option.Rel T a' a := by
  cases h with
  | none => exact .none
  | some hx => exact .some (hR _ _ rfl hx)

theorem bind {F' : α' → Option β'} {F : α → Option β} (h : Option.Rel R a' a)
    (hF : ∀ x' x, R x' x → Option.Rel S (F' x') (F x)) : Option.Rel S (a'.bind F') (a.bind F) := by
  cases h with
  | none => exact .none
  | some hx => exact hF _ _ hx

theorem map {F' : α' → β'} {F : α → β} (h : Option.Rel R a' a)
    (hF : ∀ x' x, R x' x → S (F' x') (F x)) : Option.Rel S (a'.map F') (a.map F) := by
  cases h with
  | none => exact .none
  | some hx => exact .some (hF _ _ hx)

theorem filter {p' : α' → Bool} {p : α → Bool} (h : Option.Rel R a' a)
    (hp : ∀ x' x, R x' x → p' x' = p x) : Option.Rel R (a'.filter p') (a.filter p) := by
  cases h with
  | none => exact .none
  | @some x' x hx =>
    rw [Option.filter_some, Option.filter_some, hp _ _ hx]
    split
    · exact .some hx
    · exact .none

theorem or (h : Option.Rel R a' a) (hb : Option.Rel R b' b) :
    Option.Rel R (a'.or b') (a.or b) := by
  cases h with
  | none => exact hb
  | some hx => exact .some hx

theorem map_eq {F' : α' → γ} {F : α → γ} (h : Option.Rel R a' a)
    (hF : ∀ x' x, R x' x → F' x' = F x) : a'.map F' = a.map F := by
  cases h with
  | none => rfl
  | some hx => exact congrArg Option.some (hF _ _ hx)

theorem bind_eq {F' : α' → Option γ} {F : α → Option γ} (h : Option.Rel R a' a)
    (hF : ∀ x' x, R x' x → F' x' = F x) : a'.bind F' = a.bind F := by
  cases h with
  | none => rfl
  | some hx => exact hF _ _ hx

theorem any_eq {p' : α' → Bool} {p : α → Bool} (h : Option.Rel R a' a)
    (hp : ∀ x' x, R x' x → p' x' = p x) : a'.any p' = a.any p := by
  cases h with
  | none => rfl
  | some hx => exact hp _ _ hx

/-- Related lists, where the lists that lack are empty. -/
theorem forall₂_getD {a' : Option (List α')} {a : Option (List α)}
    (h : Option.Rel (List.Forall₂ R) a' a) : List.Forall₂ R (a'.getD []) (a.getD []) := by
  cases h with
  | none => exact .nil
  | some hx => exact hx

end Option.Rel
