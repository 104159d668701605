import FlowAnalysis.Proofs.Types.Resolution

/-!
# Unions with `null` and `undefined`

What a union offers are the properties that all its members have, `null` and `undefined` left out.
The members are left out where they stand, in each group of a union for itself: a group in which
nothing else stands is a type of which nothing is known, and it makes the whole union open.

## Main definitions

* `TypeExpr.branches` — the members of a union, however they are grouped.
* `TypeExpr.hasVoidGroup` — a group of a union has no members but `null` and `undefined`.

## Main results

* `Shape.has_merge`, `Shape.has_common` — the properties of intersections and of unions.
* `TypeEnv.isOpen_shapeWith`, `TypeEnv.has_shapeWith` — what a type offers, in terms of its members.
* `TypeEnv.offers_iff_hasVoidGroup` — **two unions of the same members offer the same, unless only
  one of them has a void group.**
-/

namespace FlowAnalysis

/-! ### Properties of shapes -/

theorem Keyed.any_put {κ α : Type} [BEq κ] [LawfulBEq κ] [DecidableEq κ] (k j : κ) (a : α)
    (m : List (κ × α)) :
    ((Keyed.put k a m).any fun e => e.1 = j) = (decide (k = j) || m.any fun e => e.1 = j) := by
  induction m with
  | nil => simp [Keyed.put]
  | cons e rest ih =>
    rw [Keyed.put]
    split
    · next h =>
      obtain rfl := eq_of_beq h
      simp
    · rw [List.any_cons, List.any_cons, ih, Bool.or_left_comm]

namespace Shape

theorem has_of_isOpen {s : Shape} (h : s.isOpen) (name : String) : s.has name := by simp [has, h]

theorem any_foldl_put (name : String) (added fields : List (String × FieldShape)) :
    ((added.foldl (fun acc e => Keyed.put e.1 e.2 acc) fields).any fun e => e.1 = name) =
      ((fields.any fun e => e.1 = name) || added.any fun e => e.1 = name) := by
  induction added generalizing fields with
  | nil => simp
  | cons e rest ih =>
    rw [List.foldl_cons, ih, Keyed.any_put, List.any_cons, Bool.or_assoc, Bool.or_left_comm]

@[simp] theorem has_merge (s t : Shape) (name : String) :
    (s.merge t).has name = (s.has name || t.has name) := by
  rw [has, has, has, isOpen_merge, merge, any_foldl_put, Bool.or_assoc, Bool.or_assoc,
    Bool.or_left_comm t.isOpen]

/-- A union offers what all its members offer; without members, or with one of which nothing is
known, it offers everything. -/
theorem has_common (shapes : List Shape) (name : String) :
    (common shapes).has name ↔ (common shapes).isOpen ∨ ∀ s ∈ shapes, s.has name := by
  by_cases hopen : (common shapes).isOpen
  · exact iff_of_true (has_of_isOpen hopen name) (.inl hopen)
  rw [or_iff_right hopen]
  simp only [isOpen_common, Bool.or_eq_true, not_or, Bool.not_eq_true] at hopen
  cases shapes with
  | nil => simp at hopen
  | cons first rest =>
    have hclosed : ∀ s ∈ first :: rest, (s.has name ↔ ∃ e ∈ s.fields, e.1 = name) := by
      intro s hs
      simp [has, List.any_eq_false.1 hopen.2 s hs]
    -- A field is kept if the others have one of the same name.
    have hkept : (common (first :: rest)).has name ↔ ∃ e ∈ first.fields,
        (∀ s ∈ rest, ∃ e' ∈ s.fields, e'.1 = e.1) ∧ e.1 = name := by
      simp [common, hopen.2, has]
    rw [hkept, List.forall_mem_cons, hclosed first List.mem_cons_self]
    constructor
    · rintro ⟨e, he, hall, rfl⟩
      exact ⟨⟨e, he, rfl⟩, fun s hs => (hclosed s (List.mem_cons_of_mem _ hs)).2 (hall s hs)⟩
    · rintro ⟨⟨e, he, rfl⟩, hall⟩
      exact ⟨e, he, fun s hs => (hclosed s (List.mem_cons_of_mem _ hs)).1 (hall s hs), rfl⟩

end Shape

/-! ### Members of unions -/

namespace TypeExpr

mutual

/-- The members of a union, however they are grouped, `null` and `undefined` left out; any other
type is its only member. -/
def branches : TypeExpr → List TypeExpr
  | union parts => branchesOf parts
  | wrapped inner => branches inner
  | literal value => if (literal value).isNullish then [] else [literal value]
  | t => [t]

/-- The members of several types. -/
def branchesOf : List TypeExpr → List TypeExpr
  | [] => []
  | t :: ts => branches t ++ branchesOf ts

end

mutual

/-- Whether a group of a union has no members but `null` and `undefined`.  Parentheses make a group,
even of a single type. -/
def hasVoidGroup : TypeExpr → Bool
  | union parts => parts.all isNullish || voidGroupAmong parts
  | wrapped inner => hasVoidGroup inner
  | literal value => (literal value).isNullish
  | _ => false

/-- Whether one of several types has such a group; `null` and `undefined` themselves are none. -/
def voidGroupAmong : List TypeExpr → Bool
  | [] => false
  | t :: ts => !t.isNullish && hasVoidGroup t || voidGroupAmong ts

end

theorem branchesOf_eq (ts : List TypeExpr) : branchesOf ts = ts.flatMap branches := by
  induction ts with
  | nil => rfl
  | cons t ts ih => rw [branchesOf, ih, List.flatMap_cons]

theorem voidGroupAmong_eq (ts : List TypeExpr) :
    voidGroupAmong ts = (ts.filter (!·.isNullish)).any hasVoidGroup := by
  induction ts with
  | nil => rfl
  | cons t ts ih =>
    rw [voidGroupAmong, ih, List.filter_cons]
    cases t.isNullish <;> simp

/-- `null` and `undefined` have no members. -/
theorem branches_of_isNullish {t : TypeExpr} (h : t.isNullish) : t.branches = [] := by
  cases t with
  | literal value => rw [branches, if_pos h]
  | _ => simp [isNullish] at h

theorem branchesOf_present (ts : List TypeExpr) :
    branchesOf ts = (ts.filter (!·.isNullish)).flatMap branches := by
  rw [branchesOf_eq]
  induction ts with
  | nil => rfl
  | cons t ts ih =>
    rw [List.flatMap_cons, ih, List.filter_cons]
    cases h : t.isNullish with
    | true => simp [branches_of_isNullish h]
    | false => simp

end TypeExpr

/-! ### What a type offers -/

namespace TypeEnv

open TypeExpr

variable (env : TypeEnv) (ofName : String → Shape) (builtin : Bool)

theorem shapesOfPresent_eq (ts : List TypeExpr) : shapesOfPresent env ofName builtin ts =
    (ts.filter (!·.isNullish)).map (shapeWith env ofName builtin) := by
  induction ts with
  | nil => rfl
  | cons t ts ih =>
    rw [shapesOfPresent, List.filter_cons, ih]
    cases t.isNullish <;> simp

/-- A type is open if nothing is known of one of its members, or if a group of it has none. -/
theorem isOpen_shapeWith (t : TypeExpr) : (env.shapeWith ofName builtin t).isOpen ↔
    t.hasVoidGroup ∨ ∃ b ∈ t.branches, (env.shapeWith ofName builtin b).isOpen := by
  induction t using TypeExpr.induction with
  | union parts ih =>
    have hparts : (∃ p ∈ parts.filter (!·.isNullish), (env.shapeWith ofName builtin p).isOpen) ↔
        ∃ p ∈ parts.filter (!·.isNullish), p.hasVoidGroup ∨
          ∃ b ∈ p.branches, (env.shapeWith ofName builtin b).isOpen :=
      exists_congr fun p => and_congr_right fun hp => ih p (List.mem_of_mem_filter hp)
    -- Without `null` and `undefined` a group of nothing else has no members, and so it is open.
    have hvoid : parts.all isNullish ↔ parts.filter (!·.isNullish) = [] := by simp
    rw [shapeWith, Shape.isOpen_common, shapesOfPresent_eq, hasVoidGroup, voidGroupAmong_eq,
      branches, branchesOf_present, Bool.or_eq_true, Bool.or_eq_true, hvoid]
    simp only [List.isEmpty_iff, List.map_eq_nil_iff, List.any_map, List.any_eq_true,
      Function.comp_apply, List.mem_flatMap, hparts]
    constructor
    · rintro (h | ⟨p, hp, h | ⟨b, hb, h⟩⟩)
      · exact .inl (.inl h)
      · exact .inl (.inr ⟨p, hp, h⟩)
      · exact .inr ⟨b, ⟨p, hp, hb⟩, h⟩
    · rintro ((h | ⟨p, hp, h⟩) | ⟨b, ⟨p, hp, hb⟩, h⟩)
      · exact .inl h
      · exact .inr ⟨p, hp, .inl h⟩
      · exact .inr ⟨p, hp, .inr ⟨b, hb, h⟩⟩
  | wrapped inner ih =>
    rw [shapeWith, hasVoidGroup, branches]
    exact ih
  | literal value =>
    cases h : (literal value).isNullish <;>
      simp [shapeWith, hasVoidGroup, branches, h, Shape.unknown]
  | _ => simp [hasVoidGroup, branches]

/-- A type that is not open offers what all its members offer. -/
theorem has_shapeWith (t : TypeExpr) (name : String) : (env.shapeWith ofName builtin t).has name ↔
    (env.shapeWith ofName builtin t).isOpen ∨
      ∀ b ∈ t.branches, (env.shapeWith ofName builtin b).has name := by
  have hself : ∀ s : Shape, s.has name ↔ s.isOpen ∨ s.has name := fun s =>
    ⟨.inr, fun h => h.elim (Shape.has_of_isOpen · name) id⟩
  induction t using TypeExpr.induction with
  | union parts ih =>
    rw [shapeWith, Shape.has_common, branches, branchesOf_present, shapesOfPresent_eq]
    by_cases hopen : (Shape.common ((parts.filter (!·.isNullish)).map
        (env.shapeWith ofName builtin))).isOpen
    · simp only [hopen, true_or]
    · rw [or_iff_right hopen, or_iff_right hopen, List.forall_mem_map]
      simp only [Shape.isOpen_common, Bool.or_eq_true, not_or, Bool.not_eq_true, List.any_map,
        List.any_eq_false] at hopen
      -- A closed union has closed members, and these offer only what all their members offer.
      have hparts : ∀ p ∈ parts.filter (!·.isNullish), ((env.shapeWith ofName builtin p).has name ↔
          ∀ b ∈ p.branches, (env.shapeWith ofName builtin b).has name) := fun p hp =>
        (ih p (List.mem_of_mem_filter hp)).trans (or_iff_right (by simpa using hopen.2 p hp))
      simp only [List.mem_flatMap, forall_exists_index, and_imp]
      exact ⟨fun h b p hp hb => (hparts p hp).1 (h p hp) b hb,
        fun h p hp => (hparts p hp).2 fun b hb => h b p hp hb⟩
  | wrapped inner ih =>
    rw [shapeWith, branches]
    exact ih
  | literal value =>
    cases h : (literal value).isNullish <;> simp [shapeWith, branches, h, Shape.unknown, Shape.has]
  | _ => simpa [branches] using hself _

/-- **Two unions of the same members offer the same, unless only one of them has a void group.**  It
does not matter in which order the members stand and how they are grouped, and where `null` and
`undefined` stand among them; but a group of nothing else opens the union, unless nothing is known
of one of its members anyway. -/
theorem offers_iff_hasVoidGroup {t t' : TypeExpr} (h : ∀ b, b ∈ t'.branches ↔ b ∈ t.branches) :
    (((env.shapeOf t').isOpen ↔ (env.shapeOf t).isOpen) ∧
      ∀ name, (env.shapeOf t').has name ↔ (env.shapeOf t).has name) ↔
    ((t'.hasVoidGroup ↔ t.hasVoidGroup) ∨ ∃ b ∈ t.branches, (env.shapeOf b).isOpen) := by
  have hopen : ∀ u : TypeExpr, (env.shapeOf u).isOpen ↔
      u.hasVoidGroup ∨ ∃ b ∈ u.branches, (env.shapeOf b).isOpen :=
    env.isOpen_shapeWith env.shapeOfName false
  have hhas : ∀ (u : TypeExpr) name, (env.shapeOf u).has name ↔
      (env.shapeOf u).isOpen ∨ ∀ b ∈ u.branches, (env.shapeOf b).has name :=
    env.has_shapeWith env.shapeOfName false
  have hsame : ((env.shapeOf t').isOpen ↔ (env.shapeOf t).isOpen) ↔
      ((t'.hasVoidGroup ↔ t.hasVoidGroup) ∨ ∃ b ∈ t.branches, (env.shapeOf b).isOpen) := by
    have hany : (∃ b ∈ t'.branches, (env.shapeOf b).isOpen) ↔
        ∃ b ∈ t.branches, (env.shapeOf b).isOpen :=
      exists_congr fun b => and_congr_left fun _ => h b
    rw [hopen t', hopen t, hany]
    tauto
  -- Where both are open, or both are closed, the properties agree as well.
  rw [← hsame, and_iff_left_iff_imp]
  intro heq name
  have hall : (∀ b ∈ t'.branches, (env.shapeOf b).has name) ↔
      ∀ b ∈ t.branches, (env.shapeOf b).has name :=
    forall_congr' fun b => imp_congr_left (h b)
  rw [hhas t', hhas t, heq, hall]

/-- A type with one property. -/
def oneProperty : TypeExpr := .object [.property "a" false none none]

/-- A union of it in which `null` and `undefined` stand in front: they make a group. -/
def nullishFirst : TypeExpr :=
  .union [.union [.literal (.value .null), .literal .undefined], oneProperty]

theorem offers_iff_hasVoidGroup_nullishFirst :
    (∀ b, b ∈ nullishFirst.branches ↔ b ∈ oneProperty.branches) ∧
      nullishFirst.hasVoidGroup ∧ ¬ oneProperty.hasVoidGroup ∧
      ((((TypeEnv.mk []).shapeOf nullishFirst).isOpen ↔
          ((TypeEnv.mk []).shapeOf oneProperty).isOpen) ∧
        (∀ name, ((TypeEnv.mk []).shapeOf nullishFirst).has name ↔
          ((TypeEnv.mk []).shapeOf oneProperty).has name) ↔
      ((nullishFirst.hasVoidGroup ↔ oneProperty.hasVoidGroup) ∨
        ∃ b ∈ oneProperty.branches, ((TypeEnv.mk []).shapeOf b).isOpen)) :=
  ⟨fun _ => .rfl, rfl, by decide, offers_iff_hasVoidGroup (TypeEnv.mk []) fun _ => .rfl⟩

end TypeEnv

end FlowAnalysis
