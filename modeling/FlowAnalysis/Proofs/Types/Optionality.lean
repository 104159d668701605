import FlowAnalysis.Proofs.Types.Order
import FlowAnalysis.Proofs.Types.Schemas
import Mathlib.Data.List.TFAE
import Mathlib.Tactic.TFAE

/-!
# Which properties are optional

Several members of an intersection or of a union may have a property of the same name, and they
need not agree whether it is optional.  By rule one member of an intersection is enough to require
it, and one member of a union to make it optional.  What decides is another thing, the last member
of an intersection that has the property and the first member of a union, and so the order of the
members makes a difference whenever they do not agree.

## Main definitions

* `Shape.flag?` — whether a property is optional.
* `TypeExpr.factors` — the members of an intersection, however they are grouped.
* `Connective` — intersections and unions, with their members and the rule for optional properties.

## Main results

* `TypeEnv.flag?_eq_of_factors`, `TypeEnv.flag?_eq_of_head?_branches` — who decides.
* **`TypeEnv.tfae_membersAgree`** — properties go by the rule, in whatever order the members stand,
  exactly if the members agree.
-/

namespace FlowAnalysis

/-! ### The flags of properties -/

namespace Shape

/-- Whether a property is optional, if it is listed. -/
def flag? (s : Shape) (name : String) : Option Bool := (Keyed.get? s.fields name).map (·.optional)

/-- The properties that are not optional. -/
def required (s : Shape) : List String := (s.fields.filter fun e => !e.2.optional).map Prod.fst

variable {s t : Shape} {shapes : List Shape} {name : String}

theorem isSome_flag? (s : Shape) (name : String) : (s.flag? name).isSome = s.lists name := by
  rw [Bool.eq_iff_iff, flag?, Option.isSome_map, Keyed.isSome_get?_iff]
  simp [lists]

theorem flag?_eq_none_iff : s.flag? name = none ↔ s.lists name = false := by
  rw [← isSome_flag?, Option.isSome_eq_false_iff, Option.isNone_iff_eq_none]

theorem flag?_merge (s : Shape) (ht : t.Distinct) (name : String) :
    (s.merge t).flag? name = (t.flag? name).or (s.flag? name) := by
  rw [flag?, merge, Keyed.get?_foldl_put, Keyed.get?_reverse ht, flag?, flag?]
  cases Keyed.get? t.fields name <;> rfl

/-- Of several shapes put together, the last one that lists a property decides. -/
theorem flag?_mergeAll (h : ∀ s ∈ shapes, s.Distinct) (name : String) :
    (mergeAll shapes).flag? name = shapes.reverse.findSome? (·.flag? name) := by
  -- The shapes are put together with one that need not be empty once the first is in.
  suffices hfold : ∀ s : Shape, (shapes.foldl merge s).flag? name =
      (shapes.reverse.findSome? (·.flag? name)).or (s.flag? name) by
    rw [mergeAll, hfold]
    exact Option.or_none
  induction shapes with
  | nil => exact fun s => rfl
  | cons t ts ih =>
    rw [List.forall_mem_cons] at h
    intro s
    rw [List.foldl_cons, ih h.2, flag?_merge s h.1, List.reverse_cons, List.findSome?_append,
      List.findSome?_singleton, Option.or_assoc]

/-- Of closed shapes that all list a property, the first one decides. -/
theorem flag?_common {first : Shape} {rest : List Shape}
    (hclosed : ¬ (common (first :: rest)).isOpen) (h : (common (first :: rest)).lists name) :
    (common (first :: rest)).flag? name = first.flag? name := by
  rw [isOpen_common, Bool.or_eq_true, not_or, Bool.not_eq_true (List.any _ _)] at hclosed
  rw [lists_common, hclosed.2, if_neg Bool.false_ne_true, List.all_cons, Bool.and_eq_true,
    Bool.and_eq_true] at h
  have hfilter : Keyed.get? (first.fields.filter fun e => rest.all (·.lists e.1)) name =
      Keyed.get? first.fields name := by
    rw [Keyed.get?_filter_key _ fun key => rest.all (·.lists key), if_pos h.2.2]
  rw [common, hclosed.2, if_neg Bool.false_ne_true]
  exact congrArg (Option.map _) hfilter

theorem mem_required_iff (hs : s.Distinct) : name ∈ s.required ↔ s.flag? name = some false := by
  rw [required, flag?, List.mem_map, Option.map_eq_some_iff]
  constructor
  · rintro ⟨e, he, rfl⟩
    obtain ⟨hmem, hflag⟩ := List.mem_filter.1 he
    exact ⟨e.2, Keyed.get?_of_mem_of_nodup hs hmem, by simpa using hflag⟩
  · rintro ⟨f, hf, hflag⟩
    exact ⟨(name, f), List.mem_filter.2 ⟨Keyed.mem_of_get? hf, by simpa using hflag⟩, rfl⟩

theorem nodup_required (hs : s.Distinct) : s.required.Nodup :=
  hs.sublist (List.filter_sublist.map _)

end Shape

/-! ### Members -/

namespace TypeExpr

mutual

/-- The members of an intersection, however they are grouped; any other type is its only member. -/
def factors : TypeExpr → List TypeExpr
  | intersection parts => factorsOf parts
  | wrapped inner => factors inner
  | t => [t]

/-- The members of several types. -/
def factorsOf : List TypeExpr → List TypeExpr
  | [] => []
  | t :: ts => factors t ++ factorsOf ts

end

theorem factorsOf_eq (ts : List TypeExpr) : factorsOf ts = ts.flatMap factors := by
  induction ts with
  | nil => rfl
  | cons t ts ih => rw [factorsOf, ih, List.flatMap_cons]

/-- A member of an intersection is no intersection. -/
theorem factors_of_mem {t b : TypeExpr} (h : b ∈ t.factors) : b.factors = [b] := by
  induction t using TypeExpr.induction with
  | intersection parts ih =>
    rw [factors, factorsOf_eq, List.mem_flatMap] at h
    obtain ⟨p, hp, hb⟩ := h
    exact ih p hp hb
  | wrapped inner ih =>
    rw [factors] at h
    exact ih h
  | _ =>
    obtain rfl := List.mem_singleton.1 h
    rfl

/-- A member of a union is no union, and it is neither `null` nor `undefined`. -/
theorem branches_of_mem {t b : TypeExpr} (h : b ∈ t.branches) :
    b.branches = [b] ∧ b.isNullish = false ∧ b.hasVoidGroup = false := by
  induction t using TypeExpr.induction with
  | union parts ih =>
    rw [branches, branchesOf_eq, List.mem_flatMap] at h
    obtain ⟨p, hp, hb⟩ := h
    exact ih p hp hb
  | wrapped inner ih =>
    rw [branches] at h
    exact ih h
  | literal value =>
    rw [branches] at h
    split at h
    · cases h
    · next hnot =>
      obtain rfl := List.mem_singleton.1 h
      rw [Bool.not_eq_true] at hnot
      exact ⟨by rw [branches, hnot, if_neg Bool.false_ne_true], hnot, by rw [hasVoidGroup, hnot]⟩
  | _ =>
    obtain rfl := List.mem_singleton.1 h
    exact ⟨rfl, rfl, rfl⟩

/-- A type without members is a group of nothing but `null` and `undefined`. -/
theorem hasVoidGroup_of_branches_eq_nil {t : TypeExpr} (h : t.branches = []) : t.hasVoidGroup := by
  induction t using TypeExpr.induction with
  | union parts ih =>
    rw [branches, branchesOf_present, List.flatMap_eq_nil_iff] at h
    rw [hasVoidGroup, voidGroupAmong_eq, Bool.or_eq_true, List.any_eq_true]
    cases hpresent : parts.filter (!·.isNullish) with
    | nil => exact .inl (by simpa using hpresent)
    | cons p rest =>
      have hp : p ∈ parts.filter (!·.isNullish) := by
        rw [hpresent]
        exact List.mem_cons_self
      rw [hpresent] at h hp
      exact .inr ⟨p, hp, ih p (List.mem_of_mem_filter (hpresent ▸ hp)) (h p hp)⟩
  | wrapped inner ih =>
    rw [branches] at h
    rw [hasVoidGroup]
    exact ih h
  | literal value =>
    rw [branches] at h
    split at h
    · next hnullish =>
      rw [hasVoidGroup]
      exact hnullish
    · cases h
  | _ => cases h

end TypeExpr

/-- How types are put together out of members. -/
inductive Connective
  | intersection
  | union
  deriving DecidableEq, Repr

namespace Connective

/-- The members of a type, however they are grouped. -/
def members : Connective → TypeExpr → List TypeExpr
  | intersection => TypeExpr.factors
  | union => TypeExpr.branches

/-- The type with some members. -/
def ofMembers : Connective → List TypeExpr → TypeExpr
  | intersection => .intersection
  | union => .union

/-- Whether a property is optional by rule, given whether it is in the members that have it: it is
required in an intersection if one of them requires it, and optional in a union if it is in one of
them. -/
def isOptional : Connective → List Bool → Bool
  | intersection, flags => flags.all id
  | union, flags => flags.any id

theorem members_of_mem (c : Connective) {t b : TypeExpr} (h : b ∈ c.members t) :
    c.members b = [b] := by
  cases c with
  | intersection => exact TypeExpr.factors_of_mem h
  | union => exact (TypeExpr.branches_of_mem h).1

/-- The type with some members has these. -/
theorem members_ofMembers (c : Connective) {bs : List TypeExpr}
    (h : ∀ b ∈ bs, c.members b = [b]) : c.members (c.ofMembers bs) = bs := by
  have hflat : bs.flatMap c.members = bs := by
    rw [List.flatMap_congr h]
    exact List.flatMap_singleton' bs
  cases c with
  | intersection => exact (TypeExpr.factorsOf_eq bs).trans hflat
  | union => exact (TypeExpr.branchesOf_eq bs).trans hflat

/-- Where all agree, that is the rule. -/
theorem isOptional_eq (c : Connective) {flags : List Bool} {flag : Bool} (hne : flags ≠ [])
    (h : ∀ f ∈ flags, f = flag) : c.isOptional flags = flag := by
  obtain ⟨f, rest, rfl⟩ := List.exists_cons_of_ne_nil hne
  obtain rfl := h f List.mem_cons_self
  have hrest : ∀ g ∈ rest, g = f := fun g hg => h g (List.mem_cons_of_mem f hg)
  cases c <;> cases f <;> simp_all [isOptional]

end Connective

/-! ### Who decides -/

namespace TypeEnv

open TypeExpr

variable (env : TypeEnv) {t : TypeExpr} {name : String}

theorem shapeOf_intersection (parts : List TypeExpr) :
    env.shapeOf (.intersection parts) = .mergeAll (parts.map env.shapeOf) := by
  rw [shapeOf, shapeWith, shapesWith_eq]
  rfl

theorem shapeOf_union (parts : List TypeExpr) : env.shapeOf (.union parts) =
    .common ((parts.filter (!·.isNullish)).map env.shapeOf) := by
  rw [shapeOf, shapeWith, shapesOfPresent_eq]
  rfl

theorem shapeOf_wrapped (inner : TypeExpr) : env.shapeOf (.wrapped inner) = env.shapeOf inner := by
  rw [shapeOf, shapeWith]
  rfl

/-- An intersection is open if one of its members is. -/
theorem isOpen_iff_factors (t : TypeExpr) :
    (env.shapeOf t).isOpen ↔ ∃ b ∈ t.factors, (env.shapeOf b).isOpen := by
  induction t using TypeExpr.induction with
  | intersection parts ih =>
    have hparts : (∃ p ∈ parts, (env.shapeOf p).isOpen) ↔
        ∃ p ∈ parts, ∃ b ∈ p.factors, (env.shapeOf b).isOpen :=
      exists_congr fun p => and_congr_right fun hp => ih p hp
    rw [shapeOf_intersection, Shape.isOpen_mergeAll, List.any_map, List.any_eq_true, factors,
      factorsOf_eq]
    simp only [Function.comp_apply, hparts, List.mem_flatMap]
    constructor
    · rintro ⟨p, hp, b, hb, hopen⟩
      exact ⟨b, ⟨p, hp, hb⟩, hopen⟩
    · rintro ⟨b, ⟨p, hp, hb⟩, hopen⟩
      exact ⟨p, hp, b, hb, hopen⟩
  | wrapped inner ih =>
    rw [shapeOf_wrapped, factors]
    exact ih
  | _ => simp [factors]

/-- **Of an intersection the last member decides that has a property.** -/
theorem flag?_eq_of_factors (t : TypeExpr) (name : String) : (env.shapeOf t).flag? name =
    t.factors.reverse.findSome? fun b => (env.shapeOf b).flag? name := by
  induction t using TypeExpr.induction with
  | intersection parts ih =>
    have hdistinct : ∀ s ∈ parts.map env.shapeOf, s.Distinct :=
      List.forall_mem_map.2 fun p _ => env.distinct_shapeOf p
    rw [shapeOf_intersection, Shape.flag?_mergeAll hdistinct, factors, factorsOf_eq]
    clear hdistinct
    induction parts with
    | nil => rfl
    | cons p rest ihrest =>
      rw [List.forall_mem_cons] at ih
      rw [List.map_cons, List.reverse_cons, List.findSome?_append, ihrest ih.2,
        List.findSome?_singleton, ih.1, List.flatMap_cons, List.reverse_append,
        List.findSome?_append]
  | wrapped inner ih =>
    rw [shapeOf_wrapped, factors]
    exact ih
  | _ => rw [factors, List.reverse_singleton, List.findSome?_singleton] <;> simp

/-- **Of a closed union the first member decides.** -/
theorem flag?_eq_of_head?_branches (hclosed : ¬ (env.shapeOf t).isOpen)
    (hlists : (env.shapeOf t).lists name) {b : TypeExpr} (hb : t.branches.head? = some b) :
    (env.shapeOf t).flag? name = (env.shapeOf b).flag? name := by
  induction t using TypeExpr.induction with
  | union parts ih =>
    rw [shapeOf_union] at hclosed hlists ⊢
    rw [branches, branchesOf_present] at hb
    cases hpresent : parts.filter (!·.isNullish) with
    | nil =>
      rw [hpresent] at hb
      cases hb
    | cons p rest =>
      have hp : p ∈ parts := List.mem_of_mem_filter (hpresent ▸ List.mem_cons_self)
      rw [hpresent, List.map_cons] at hclosed hlists
      rw [hpresent, List.flatMap_cons] at hb
      rw [List.map_cons, Shape.flag?_common hclosed hlists]
      -- The first group is closed and has the property too, and it has a member.
      have hpclosed : ¬ (env.shapeOf p).isOpen := by
        intro hopen
        exact hclosed (by rw [Shape.isOpen_common]; simp [hopen])
      have hplists : (env.shapeOf p).lists name := by
        rw [← Shape.isSome_flag?, ← Shape.flag?_common hclosed hlists, Shape.isSome_flag?]
        exact hlists
      have hne : p.branches ≠ [] := fun hnil => hpclosed
        ((env.isOpen_shapeWith env.shapeOfName false p).2
          (.inl (hasVoidGroup_of_branches_eq_nil hnil)))
      refine ih p hp hpclosed hplists ?_
      rwa [List.head?_append_of_ne_nil _ hne] at hb
  | wrapped inner ih =>
    rw [shapeOf_wrapped] at hclosed hlists ⊢
    exact ih hclosed hlists hb
  | literal value => exact absurd rfl hclosed
  | _ =>
    obtain rfl := Option.some.inj hb
    rfl

/-- A property of a closed type is in one member of an intersection, or in all of a union. -/
theorem lists_iff (c : Connective) (hclosed : ¬ (env.shapeOf t).isOpen) :
    (env.shapeOf t).lists name ↔
      match c with
      | .intersection => ∃ b ∈ t.factors, (env.shapeOf b).lists name
      | .union => ∀ b ∈ t.branches, (env.shapeOf b).lists name := by
  cases c with
  | intersection =>
    rw [← Shape.isSome_flag?, flag?_eq_of_factors, List.findSome?_isSome_iff]
    simp only [List.mem_reverse, Shape.isSome_flag?]
  | union =>
    have hhas : ∀ s : Shape, ¬ s.isOpen → (s.has name ↔ s.lists name) := by
      intro s hs
      rw [Bool.not_eq_true] at hs
      rw [Shape.has, Shape.lists, hs, Bool.false_or]
    have hopen := env.isOpen_shapeWith env.shapeOfName false t
    have hbranches : ∀ b ∈ t.branches, ¬ (env.shapeOf b).isOpen := fun b hb h =>
      hclosed (hopen.2 (.inr ⟨b, hb, h⟩))
    have hmembers := env.has_shapeWith env.shapeOfName false t name
    rw [← hhas _ hclosed]
    refine (hmembers.trans (or_iff_right hclosed)).trans ?_
    exact forall_congr' fun b => forall_congr' fun hb => hhas _ (hbranches b hb)

/-! ### Every order -/

/-- A closed type with the same members in any order. -/
structure Reorders (env : TypeEnv) (c : Connective) (t' t : TypeExpr) : Prop where
  members : (c.members t').Perm (c.members t)
  closed : ¬ (env.shapeOf t').isOpen

/-- Whether a property is optional by rule. -/
def rule? (env : TypeEnv) (c : Connective) (t : TypeExpr) (name : String) : Option Bool :=
  if (env.shapeOf t).lists name then
    some (c.isOptional ((c.members t).filterMap fun b => (env.shapeOf b).flag? name))
  else none

/-- The members that have a property of the type agree whether it is optional. -/
def MembersAgree (env : TypeEnv) (c : Connective) (t : TypeExpr) : Prop :=
  ∀ name, (env.shapeOf t).lists name → ∀ b ∈ c.members t, ∀ b' ∈ c.members t,
    (env.shapeOf b).lists name → (env.shapeOf b').lists name →
      (env.shapeOf b).flag? name = (env.shapeOf b').flag? name

variable {env} {c : Connective}

theorem Reorders.lists_eq {t' : TypeExpr} (hclosed : ¬ (env.shapeOf t).isOpen)
    (h : env.Reorders c t' t) (name : String) :
    (env.shapeOf t').lists name = (env.shapeOf t).lists name := by
  rw [Bool.eq_iff_iff, env.lists_iff c h.closed, env.lists_iff c hclosed]
  have hmem : ∀ b, b ∈ c.members t' ↔ b ∈ c.members t := fun b => h.members.mem_iff
  cases c with
  | intersection => exact exists_congr fun b => and_congr_left fun _ => hmem b
  | union => exact forall_congr' fun b => imp_congr_left (hmem b)

/-- One of the members that have a property decides. -/
theorem exists_deciding (c : Connective) (hclosed : ¬ (env.shapeOf t).isOpen)
    (hlists : (env.shapeOf t).lists name) : ∃ b ∈ c.members t, (env.shapeOf b).lists name ∧
      (env.shapeOf t).flag? name = (env.shapeOf b).flag? name := by
  obtain ⟨flag, hflag⟩ := Option.isSome_iff_exists.1 ((Shape.isSome_flag? _ name).trans hlists)
  have hof : ∀ b, (env.shapeOf b).flag? name = some flag → (env.shapeOf b).lists name := by
    intro b hb
    rw [← Shape.isSome_flag?, hb]
    rfl
  cases c with
  | intersection =>
    have hfind := hflag
    rw [flag?_eq_of_factors] at hfind
    obtain ⟨b, hb, heq⟩ := List.exists_of_findSome?_eq_some hfind
    exact ⟨b, List.mem_reverse.1 hb, hof b heq, hflag.trans heq.symm⟩
  | union =>
    cases hbranches : t.branches with
    | nil =>
      exact absurd ((env.isOpen_shapeWith env.shapeOfName false t).2
        (.inl (hasVoidGroup_of_branches_eq_nil hbranches))) hclosed
    | cons b rest =>
      have heq := env.flag?_eq_of_head?_branches hclosed hlists (by rw [hbranches]; rfl)
      have hmem : b ∈ t.branches := by
        rw [hbranches]
        exact List.mem_cons_self
      exact ⟨b, hmem, hof b (heq.symm.trans hflag), heq⟩

/-- Members in some order make up a closed type if those of a closed type do. -/
theorem reorders_ofMembers (hclosed : ¬ (env.shapeOf t).isOpen) {bs : List TypeExpr}
    (hperm : bs.Perm (c.members t)) : env.Reorders c (c.ofMembers bs) t := by
  have hmem : ∀ b ∈ bs, b ∈ c.members t := fun b hb => hperm.mem_iff.1 hb
  have hmembers : c.members (c.ofMembers bs) = bs :=
    c.members_ofMembers fun b hb => c.members_of_mem (hmem b hb)
  refine ⟨by rw [hmembers]; exact hperm, fun hopen => hclosed ?_⟩
  cases c with
  | intersection =>
    rw [isOpen_iff_factors] at hopen ⊢
    obtain ⟨b, hb, hopen⟩ := hopen
    exact ⟨b, hmem b (hmembers ▸ hb), hopen⟩
  | union =>
    refine (env.isOpen_shapeWith env.shapeOfName false t).2 ?_
    have hopen := (env.isOpen_shapeWith env.shapeOfName false (.union bs)).1 hopen
    rcases hopen with hvoid | ⟨b, hb, hopen⟩
    · left
      rw [hasVoidGroup, voidGroupAmong_eq, Bool.or_eq_true, List.all_eq_true,
        List.any_eq_true] at hvoid
      rcases hvoid with hnullish | ⟨b, hb, hvoid⟩
      -- A member is neither `null` nor `undefined`, so that there is none.
      · have hnil : bs = [] := List.eq_nil_iff_forall_not_mem.2 fun b hb => by
          have := (branches_of_mem (hmem b hb)).2.1
          simp [hnullish b hb] at this
        rw [hnil, List.nil_perm] at hperm
        exact hasVoidGroup_of_branches_eq_nil hperm
      · have := (branches_of_mem (hmem b (List.mem_of_mem_filter hb))).2.2
        simp [hvoid] at this
    · exact .inr ⟨b, hmem b (hmembers ▸ hb), hopen⟩

/-- In some order, a given member decides that has a property of the type. -/
theorem exists_reorders (hclosed : ¬ (env.shapeOf t).isOpen) (hlists : (env.shapeOf t).lists name)
    {b : TypeExpr} (hb : b ∈ c.members t) (hblists : (env.shapeOf b).lists name) :
    ∃ t', env.Reorders c t' t ∧ (env.shapeOf t').flag? name = (env.shapeOf b).flag? name := by
  obtain ⟨front, rest, hsplit⟩ := List.append_of_mem hb
  have hmiddle : (b :: (front ++ rest)).Perm (c.members t) := by
    rw [hsplit]
    exact List.perm_middle.symm
  cases c with
  | intersection =>
    -- It comes last.
    have hlast : (front ++ rest ++ [b]).Perm (Connective.intersection.members t) :=
      List.perm_append_comm.trans hmiddle
    have h := reorders_ofMembers hclosed hlast
    refine ⟨_, h, ?_⟩
    have hmembers : (Connective.intersection.ofMembers (front ++ rest ++ [b])).factors =
        front ++ rest ++ [b] :=
      Connective.intersection.members_ofMembers fun d hd =>
        Connective.intersection.members_of_mem (hlast.mem_iff.1 hd)
    rw [flag?_eq_of_factors, hmembers, List.reverse_append, List.reverse_singleton,
      List.findSome?_append, List.findSome?_singleton]
    exact Option.or_of_isSome ((Shape.isSome_flag? _ name).trans hblists)
  | union =>
    -- It comes first.
    have h := reorders_ofMembers hclosed hmiddle
    refine ⟨_, h, ?_⟩
    have hmembers : (Connective.union.ofMembers (b :: (front ++ rest))).branches =
        b :: (front ++ rest) :=
      Connective.union.members_ofMembers fun d hd =>
        Connective.union.members_of_mem (hmiddle.mem_iff.1 hd)
    exact flag?_eq_of_head?_branches env h.closed (by rw [h.lists_eq hclosed]; exact hlists)
      (by rw [hmembers]; rfl)

/-- Where the members agree, properties go by the rule in every order. -/
theorem MembersAgree.flag?_eq (hagree : env.MembersAgree c t) (hclosed : ¬ (env.shapeOf t).isOpen)
    {t' : TypeExpr} (h : env.Reorders c t' t) (name : String) :
    (env.shapeOf t').flag? name = env.rule? c t name := by
  have hsame := h.lists_eq hclosed name
  unfold rule?
  cases hlists : (env.shapeOf t).lists name with
  | false =>
    rw [if_neg Bool.false_ne_true, Shape.flag?_eq_none_iff, hsame, hlists]
  | true =>
    obtain ⟨b, hb, hblists, hflag⟩ := exists_deciding c h.closed (hsame.trans hlists)
    obtain ⟨flag, hbflag⟩ :=
      Option.isSome_iff_exists.1 ((Shape.isSome_flag? (env.shapeOf b) name).trans hblists)
    have hmem : b ∈ c.members t := h.members.mem_iff.1 hb
    have hrule : c.isOptional ((c.members t).filterMap fun d => (env.shapeOf d).flag? name) =
        flag := by
      refine c.isOptional_eq ?_ fun f hf => ?_
      · exact List.ne_nil_of_mem (List.mem_filterMap.2 ⟨b, hmem, hbflag⟩)
      · obtain ⟨d, hd, hdflag⟩ := List.mem_filterMap.1 hf
        have hdlists : (env.shapeOf d).lists name := by
          rw [← Shape.isSome_flag?, hdflag]
          rfl
        have heq := hagree name hlists d hd b hmem hdlists hblists
        rw [hdflag, hbflag] at heq
        exact Option.some.inj heq
    rw [if_pos rfl, hflag, hbflag, hrule]

/-- **Properties go by the rule, in whatever order the members stand, exactly if the members
agree.**  A closed type is an intersection or a union of its members, which may be of any form and
grouped in any way.  In every order each property is required in the intersection if one member
requires it, or optional in the union if it is in one member; or at least its being optional does
not depend on the order; or the same properties are required in every order: each of these is the
case exactly if no two members that have a property of the type differ in whether it is optional. -/
theorem tfae_membersAgree (env : TypeEnv) (c : Connective) {t : TypeExpr}
    (hclosed : ¬ (env.shapeOf t).isOpen) : List.TFAE [
      env.MembersAgree c t,
      ∀ t', env.Reorders c t' t → ∀ name, (env.shapeOf t').flag? name = env.rule? c t name,
      ∀ t', env.Reorders c t' t → ∀ name,
        (env.shapeOf t').flag? name = (env.shapeOf t).flag? name,
      ∀ t', env.Reorders c t' t → (env.shapeOf t').required.Perm (env.shapeOf t).required] := by
  tfae_have 1 → 2 := fun hagree t' h name => hagree.flag?_eq hclosed h name
  tfae_have 2 → 3 := fun hrule t' h name => by
    rw [hrule t' h name, hrule t ⟨.refl _, hclosed⟩ name]
  tfae_have 3 → 4 := fun hflags t' h => by
    have hdistinct := env.distinct_shapeOf
    refine (List.perm_ext_iff_of_nodup (Shape.nodup_required (hdistinct t'))
      (Shape.nodup_required (hdistinct t))).2 fun name => ?_
    rw [Shape.mem_required_iff (hdistinct t'), Shape.mem_required_iff (hdistinct t), hflags t' h]
  tfae_have 4 → 1 := fun hrequired name hlists b hb b' hb' hblists hblists' => by
    have hdistinct := env.distinct_shapeOf
    -- Each of the two decides in some order.
    obtain ⟨u, hu, huflag⟩ := exists_reorders hclosed hlists hb hblists
    obtain ⟨u', hu', huflag'⟩ := exists_reorders hclosed hlists hb' hblists'
    have hfalse : (env.shapeOf b).flag? name = some false ↔
        (env.shapeOf b').flag? name = some false := by
      rw [← huflag, ← huflag', ← Shape.mem_required_iff (hdistinct u),
        ← Shape.mem_required_iff (hdistinct u'), (hrequired u hu).mem_iff,
        (hrequired u' hu').mem_iff]
    obtain ⟨flag, hflag⟩ :=
      Option.isSome_iff_exists.1 ((Shape.isSome_flag? (env.shapeOf b) name).trans hblists)
    obtain ⟨flag', hflag'⟩ :=
      Option.isSome_iff_exists.1 ((Shape.isSome_flag? (env.shapeOf b') name).trans hblists')
    rw [hflag, hflag'] at hfalse ⊢
    cases flag <;> cases flag' <;> simp_all
  tfae_finish

/-- A type with one property. -/
def nameOnly (optional : Bool) : TypeExpr := .object [.property "name" optional none none]

theorem tfae_membersAgree_nameOnly :
    ¬ ((TypeEnv.mk []).shapeOf (.intersection [nameOnly true, nameOnly false])).isOpen ∧
      ¬ ∀ t', (TypeEnv.mk []).Reorders .intersection t'
          (.intersection [nameOnly true, nameOnly false]) →
        ((TypeEnv.mk []).shapeOf t').required.Perm
          ((TypeEnv.mk []).shapeOf (.intersection [nameOnly true, nameOnly false])).required := by
  have hclosed :
      ¬ ((TypeEnv.mk []).shapeOf (.intersection [nameOnly true, nameOnly false])).isOpen := by
    decide
  refine ⟨hclosed, fun hrequired => ?_⟩
  have hagree : (TypeEnv.mk []).MembersAgree .intersection
      (.intersection [nameOnly true, nameOnly false]) :=
    ((tfae_membersAgree (TypeEnv.mk []) .intersection hclosed).out 3 0).1 hrequired
  have hflags := hagree "name" rfl (nameOnly true) List.mem_cons_self (nameOnly false)
    (List.mem_cons_of_mem _ List.mem_cons_self) rfl rfl
  revert hflags
  decide

end TypeEnv

end FlowAnalysis
