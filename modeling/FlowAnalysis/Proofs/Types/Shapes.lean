import FlowAnalysis.Proofs.Types.Names

/-!
# Shapes with related properties

Two shapes are alike if they have properties of the same names in the same order, and are open
together.  All that shapes are put together from keeps them alike, whatever else relates their
properties.

## Main definitions

* `FieldsAlike`, `Shape.Alike` — lists of properties, and shapes, with related properties.

## Main results

* `Shape.Alike.merge`, `Shape.Alike.common`, `Shape.Alike.modify` — what keeps shapes alike.
* `Shape.Alike.has_eq` — alike shapes have the same properties.
-/

namespace FlowAnalysis

/-- Two lists of properties with the same names, in the same order, that are related. -/
abbrev FieldsAlike (R : FieldShape → FieldShape → Prop) :
    (fields fields' : List (String × FieldShape)) → Prop :=
  List.Forall₂ fun e e' => e.1 = e'.1 ∧ R e.2 e'.2

/-- Two shapes with properties of the same names, in the same order, that are related. -/
structure Shape.Alike (R : FieldShape → FieldShape → Prop) (s t : Shape) : Prop where
  isOpen : s.isOpen = t.isOpen
  fields : FieldsAlike R s.fields t.fields

namespace FieldsAlike

variable {R : FieldShape → FieldShape → Prop}
  {fields fields' added added' : List (String × FieldShape)}

theorem put (h : FieldsAlike R fields fields') (name : String) {f f' : FieldShape} (hf : R f f') :
    FieldsAlike R (Keyed.put name f fields) (Keyed.put name f' fields') := by
  induction h with
  | nil => exact .cons ⟨rfl, hf⟩ .nil
  | @cons e e' rest rest' he hrest ih =>
    rw [Keyed.put, Keyed.put, he.1]
    split
    · exact .cons ⟨rfl, hf⟩ hrest
    · exact .cons he ih

theorem foldl_put (h : FieldsAlike R fields fields') (hadded : FieldsAlike R added added') :
    FieldsAlike R (added.foldl (fun acc e => Keyed.put e.1 e.2 acc) fields)
      (added'.foldl (fun acc e => Keyed.put e.1 e.2 acc) fields') := by
  induction hadded generalizing fields fields' with
  | nil => exact h
  | @cons e e' _ _ he _ ih =>
    rw [List.foldl_cons, List.foldl_cons, he.1]
    exact ih (h.put e'.1 he.2)

theorem any_key (h : FieldsAlike R fields fields') (name : String) :
    (fields.any fun e => e.1 = name) = fields'.any fun e => e.1 = name := by
  induction h with
  | nil => rfl
  | cons he _ ih => rw [List.any_cons, List.any_cons, he.1, ih]

theorem isEmpty_eq (h : FieldsAlike R fields fields') : fields.isEmpty = fields'.isEmpty := by
  cases h <;> rfl

theorem filter_key (h : FieldsAlike R fields fields') (p : String → Bool) :
    FieldsAlike R (fields.filter fun e => p e.1) (fields'.filter fun e => p e.1) := by
  induction h with
  | nil => exact .nil
  | @cons e e' _ _ he _ ih =>
    rw [List.filter_cons, List.filter_cons, he.1]
    split
    · exact .cons he ih
    · exact ih

end FieldsAlike

namespace Shape

variable {R : FieldShape → FieldShape → Prop} {s s' t t' : Shape} {shapes shapes' : List Shape}

theorem Alike.refl (hR : ∀ f, R f f) (s : Shape) : s.Alike R s :=
  ⟨rfl, List.forall₂_same.2 fun e _ => ⟨rfl, hR e.2⟩⟩

/-- Alike shapes have the same properties. -/
theorem Alike.has_eq (h : s.Alike R s') (name : String) : s.has name = s'.has name := by
  rw [has, has, h.isOpen, h.fields.any_key]

theorem Alike.merge (hs : s.Alike R s') (ht : t.Alike R t') : (s.merge t).Alike R (s'.merge t') :=
  ⟨by rw [isOpen_merge, isOpen_merge, hs.isOpen, ht.isOpen], hs.fields.foldl_put ht.fields⟩

theorem Alike.foldl_merge (hs : s.Alike R s') (h : List.Forall₂ (Alike R) shapes shapes') :
    (shapes.foldl Shape.merge s).Alike R (shapes'.foldl Shape.merge s') := by
  induction h generalizing s s' with
  | nil => exact hs
  | cons h _ ih => exact ih (hs.merge h)

theorem Alike.mergeAll (h : List.Forall₂ (Alike R) shapes shapes') :
    (Shape.mergeAll shapes).Alike R (Shape.mergeAll shapes') :=
  Alike.foldl_merge ⟨rfl, .nil⟩ h

theorem Alike.any_isOpen (h : List.Forall₂ (Alike R) shapes shapes') :
    (shapes.any (·.isOpen)) = shapes'.any (·.isOpen) := by
  induction h with
  | nil => rfl
  | cons h _ ih => rw [List.any_cons, List.any_cons, h.isOpen, ih]

theorem Alike.all_key (h : List.Forall₂ (Alike R) shapes shapes') (name : String) :
    (shapes.all fun s => s.fields.any fun e => e.1 = name) =
      shapes'.all fun s => s.fields.any fun e => e.1 = name := by
  induction h with
  | nil => rfl
  | cons h _ ih => rw [List.all_cons, List.all_cons, h.fields.any_key, ih]

theorem Alike.common (h : List.Forall₂ (Alike R) shapes shapes') :
    (Shape.common shapes).Alike R (Shape.common shapes') := by
  unfold Shape.common
  rw [Alike.any_isOpen h]
  split
  · exact Alike.foldl_merge ⟨rfl, .nil⟩ h
  · cases h with
    | nil => exact ⟨rfl, .nil⟩
    | @cons first first' rest rest' hfirst hrest =>
      refine ⟨rfl, ?_⟩
      simp only [Alike.all_key hrest]
      exact hfirst.fields.filter_key fun key => rest'.all fun s => s.fields.any fun e => e.1 = key

theorem Alike.mergeAll_map {α : Type} {F G : α → Shape} {xs : List α}
    (h : ∀ x ∈ xs, (F x).Alike R (G x)) :
    (Shape.mergeAll (xs.map F)).Alike R (Shape.mergeAll (xs.map G)) := by
  refine .mergeAll ?_
  rwa [List.forall₂_map_left_iff, List.forall₂_map_right_iff, List.forall₂_same]

theorem Alike.common_map {α : Type} {F G : α → Shape} {xs : List α}
    (h : ∀ x ∈ xs, (F x).Alike R (G x)) :
    (Shape.common (xs.map F)).Alike R (Shape.common (xs.map G)) := by
  refine .common ?_
  rwa [List.forall₂_map_left_iff, List.forall₂_map_right_iff, List.forall₂_same]

/-- Members that add related properties. -/
theorem Alike.members {builtin : Bool} {F : Member → Member}
    (hF : ∀ m s s', s.Alike R s' →
      (TypeEnv.addMember builtin s (F m)).Alike R (TypeEnv.addMember builtin s' m))
    (members : List Member) : (TypeEnv.shapeOfMembers builtin (members.map F)).Alike R
      (TypeEnv.shapeOfMembers builtin members) := by
  suffices h : ∀ s s' : Shape, s.Alike R s' →
      ((members.map F).foldl (TypeEnv.addMember builtin) s).Alike R
        (members.foldl (TypeEnv.addMember builtin) s') from h _ _ ⟨rfl, .nil⟩
  induction members with
  | nil => exact fun _ _ h => h
  | cons m ms ih => exact fun s s' hs => ih _ _ (hF m s s' hs)

/-- Related properties stay related when both are made optional or not. -/
def KeepsOptional (R : FieldShape → FieldShape → Prop) : Prop :=
  ∀ f g : FieldShape, R f g → ∀ optional, R { f with optional } { g with optional }

theorem Alike.withOptional (hR : KeepsOptional R) (h : s.Alike R s') (optional : Bool) :
    (s.withOptional optional).Alike R (s'.withOptional optional) := by
  refine ⟨h.isOpen, ?_⟩
  simp only [FieldsAlike, Shape.withOptional, List.forall₂_map_left_iff, List.forall₂_map_right_iff]
  exact h.fields.imp fun e e' he => ⟨he.1, hR e.2 e'.2 he.2 optional⟩

theorem Alike.modify (hR : KeepsOptional R) {name : String} {modify : Shape → Shape}
    (hm : TypeEnv.modifier? name = some modify) (h : s.Alike R s') :
    (modify s).Alike R (modify s') := by
  unfold TypeEnv.modifier? at hm
  split at hm
  · cases hm
    exact h.withOptional hR true
  · cases hm
    exact h.withOptional hR false
  · cases hm
    exact h
  · cases hm

end Shape

end FlowAnalysis
