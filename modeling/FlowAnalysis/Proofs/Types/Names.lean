import FlowAnalysis.Proofs.Keyed
import FlowAnalysis.Proofs.Types.Unions
import Mathlib.Logic.Relation

/-!
# The resolution of names

The shape of a name depends only on the declarations that its resolution asks for.  The names on the
way to it make a difference only where resolution comes back to one of them, and so a name that is
declared once, as an alias, has the shape of what it stands for.

## Main definitions

* `Shape.Distinct` — no property is listed twice.
* `TypeExpr.heads` — the names that the resolution of a type asks for.
* `TypeEnv.Asks` — the resolution of a name asks for another one.

## Main results

* `TypeEnv.shapeWith_congr`, `TypeEnv.shapeOfNameAmong_congr` — what shapes depend on.
* `TypeEnv.shapeOfName_of_alias` — **a name has the shape of what it stands for**, unless its
  resolution comes back to it.
-/

namespace FlowAnalysis

/-! ### Shapes with different properties -/

namespace Shape

/-- No property of a shape is listed twice. -/
def Distinct (s : Shape) : Prop := (s.fields.map (·.1)).Nodup

theorem Distinct.unknown : Shape.unknown.Distinct := List.nodup_nil

theorem Distinct.empty : Shape.empty.Distinct := List.nodup_nil

theorem Distinct.merge {s : Shape} (h : s.Distinct) (t : Shape) : (s.merge t).Distinct :=
  Keyed.nodup_keys_foldl_put h

theorem Distinct.foldl_merge {s : Shape} (h : s.Distinct) (shapes : List Shape) :
    (shapes.foldl Shape.merge s).Distinct := by
  induction shapes generalizing s with
  | nil => exact h
  | cons t ts ih => exact ih (h.merge t)

theorem Distinct.mergeAll (shapes : List Shape) : (Shape.mergeAll shapes).Distinct :=
  Distinct.empty.foldl_merge shapes

theorem Distinct.common {shapes : List Shape} (h : ∀ s ∈ shapes, s.Distinct) :
    (Shape.common shapes).Distinct := by
  unfold Shape.common
  split
  · exact Distinct.unknown.foldl_merge shapes
  · cases shapes with
    | nil => exact .unknown
    | cons first rest =>
      exact (h first List.mem_cons_self).sublist (List.filter_sublist.map _)

theorem Distinct.withOptional {s : Shape} (h : s.Distinct) (optional : Bool) :
    (s.withOptional optional).Distinct := by
  simpa [Distinct, Shape.withOptional, Function.comp_def] using h

/-- The shape of a single type is its own. -/
theorem mergeAll_singleton {s : Shape} (h : s.Distinct) : mergeAll [s] = s := by
  have hfields : s.fields.foldl (fun acc e => Keyed.put e.1 e.2 acc) [] = s.fields :=
    Keyed.foldl_put_of_nodup h
  simp [mergeAll, merge, empty, hfields]

end Shape

namespace TypeEnv

variable {env : TypeEnv}

theorem distinct_shapeOfMembers (builtin : Bool) (members : List Member) :
    (shapeOfMembers builtin members).Distinct := by
  suffices h : ∀ s : Shape, s.Distinct → (members.foldl (addMember builtin) s).Distinct from
    h _ .empty
  induction members with
  | nil => exact fun _ h => h
  | cons m ms ih =>
    intro s hs
    refine ih _ ?_
    cases m with
    | property name optional type doc => exact Keyed.nodup_keys_put hs name _
    | index => exact hs

theorem distinct_of_modifier? {name : String} {modify : Shape → Shape}
    (h : modifier? name = some modify) {s : Shape} (hs : s.Distinct) : (modify s).Distinct := by
  unfold modifier? at h
  split at h
  · cases h
    exact hs.withOptional true
  · cases h
    exact hs.withOptional false
  · cases h
    exact hs
  · cases h

theorem shapesWith_eq (env : TypeEnv) (ofName : String → Shape) (builtin : Bool)
    (ts : List TypeExpr) :
    shapesWith env ofName builtin ts = ts.map (shapeWith env ofName builtin) := by
  induction ts with
  | nil => rfl
  | cons t ts ih => rw [shapesWith, ih, List.map_cons]

theorem distinct_shapeWith {ofName : String → Shape} (hname : ∀ name, (ofName name).Distinct)
    (builtin : Bool) (t : TypeExpr) : (shapeWith env ofName builtin t).Distinct := by
  induction t using TypeExpr.induction with
  | named name =>
    rw [shapeWith]
    exact hname name
  | generic name arguments ih =>
    have hdeclared : (if env.isKnown name then ofName name else .unknown).Distinct := by
      split
      · exact hname name
      · exact .unknown
    rw [shapeWith]
    cases hm : modifier? name with
    | none => exact hdeclared
    | some modify =>
      cases arguments with
      | nil => exact hdeclared
      | cons t ts => exact distinct_of_modifier? hm (ih t List.mem_cons_self)
  | object members =>
    rw [shapeWith]
    exact distinct_shapeOfMembers builtin members
  | intersection parts ih =>
    rw [shapeWith]
    exact .mergeAll _
  | union parts ih =>
    rw [shapeWith, shapesOfPresent_eq]
    refine .common fun s hs => ?_
    obtain ⟨t, ht, rfl⟩ := List.mem_map.1 hs
    exact ih t (List.mem_of_mem_filter ht)
  | wrapped inner ih =>
    rw [shapeWith]
    exact ih
  | _ =>
    rw [shapeWith] <;> first | exact .unknown | simp

theorem distinct_shapeOfNameAmong (n : Nat) (visiting : List String) (name : String) :
    (env.shapeOfNameAmong n visiting name).Distinct := by
  cases n with
  | zero => exact .unknown
  | succ n =>
    rw [shapeOfNameAmong]
    split
    · exact .unknown
    · split
      · exact .unknown
      · exact .mergeAll _

end TypeEnv

/-! ### The names that resolution asks for -/

namespace TypeExpr

mutual

/-- The names that the resolution of a type asks for: names that only stand in the types of
properties are not among them. -/
def heads : TypeExpr → List String
  | wrapped inner => heads inner
  | named name => [name]
  | generic name arguments => name :: headsOfFirst arguments
  | intersection parts => headsAmong parts
  | union parts => headsAmong parts
  | _ => []

/-- The names that the resolution of the first of some types asks for. -/
def headsOfFirst : List TypeExpr → List String
  | [] => []
  | t :: _ => heads t

/-- The names that the resolution of some types asks for. -/
def headsAmong : List TypeExpr → List String
  | [] => []
  | t :: ts => heads t ++ headsAmong ts

end

theorem headsAmong_eq (ts : List TypeExpr) : headsAmong ts = ts.flatMap heads := by
  induction ts with
  | nil => rfl
  | cons t ts ih => rw [headsAmong, ih, List.flatMap_cons]

end TypeExpr

/-- The names that the resolution of a declaration asks for. -/
def TypeDecl.heads (d : TypeDecl) : List String :=
  match d.declared with
  | .interface parents _ => parents.flatMap TypeExpr.heads
  | .alias value => (value.map TypeExpr.heads).getD []

namespace TypeEnv

variable {env : TypeEnv}

/-- The resolution of a name asks for another one. -/
def Asks (env : TypeEnv) (name other : String) : Prop :=
  ∃ ds, env.declsOf? name = some ds ∧ ∃ d ∈ ds, other ∈ d.heads

/-- The shape of a type depends only on the shapes of the names that its resolution asks for. -/
theorem shapeWith_congr {f g : String → Shape} (builtin : Bool) {t : TypeExpr}
    (h : ∀ name ∈ t.heads, f name = g name) :
    shapeWith env f builtin t = shapeWith env g builtin t := by
  induction t using TypeExpr.induction with
  | named name =>
    rw [shapeWith, shapeWith]
    exact h name (by simp [TypeExpr.heads])
  | generic name arguments ih =>
    rw [TypeExpr.heads, List.forall_mem_cons] at h
    rw [shapeWith, shapeWith, h.1]
    cases arguments with
    | nil => rfl
    | cons t ts => rw [shapeOfFirst, shapeOfFirst, ih t List.mem_cons_self h.2]
  | intersection parts ih =>
    rw [TypeExpr.heads, TypeExpr.headsAmong_eq, List.forall_mem_flatMap] at h
    rw [shapeWith, shapeWith, shapesWith_eq, shapesWith_eq,
      List.map_congr_left fun t ht => ih t ht (h t ht)]
  | union parts ih =>
    rw [TypeExpr.heads, TypeExpr.headsAmong_eq, List.forall_mem_flatMap] at h
    rw [shapeWith, shapeWith, shapesOfPresent_eq, shapesOfPresent_eq,
      List.map_congr_left fun t ht =>
        ih t (List.mem_of_mem_filter ht) (h t (List.mem_of_mem_filter ht))]
  | wrapped inner ih =>
    rw [shapeWith, shapeWith]
    exact ih h
  | _ => simp [shapeWith]

theorem shapeOfDecl_congr {f g : String → Shape} {d : TypeDecl}
    (h : ∀ name ∈ d.heads, f name = g name) : env.shapeOfDecl f d = env.shapeOfDecl g d := by
  unfold TypeDecl.heads at h
  unfold shapeOfDecl
  match hd : d.declared with
  | .interface parents body =>
    simp only [hd, List.forall_mem_flatMap] at h
    have hparents : parents.map (shapeWith env f d.builtin) =
        parents.map (shapeWith env g d.builtin) :=
      List.map_congr_left fun t ht => shapeWith_congr d.builtin (h t ht)
    simp only [shapesWith_eq, hparents]
  | .alias none => rfl
  | .alias (some t) =>
    simp only [hd, Option.map_some, Option.getD_some] at h
    exact shapeWith_congr d.builtin h

/-- Names on the way make a difference only where resolution comes upon them. -/
theorem shapeOfNameAmong_congr (n : Nat) {visiting visiting' : List String} {name : String}
    (h : ∀ other, Relation.ReflTransGen env.Asks name other →
      (other ∈ visiting ↔ other ∈ visiting')) :
    env.shapeOfNameAmong n visiting name = env.shapeOfNameAmong n visiting' name := by
  induction n generalizing visiting visiting' name with
  | zero => rfl
  | succ n ih =>
    have hself : visiting.contains name = visiting'.contains name := by
      rw [Bool.eq_iff_iff, List.contains_iff_mem, List.contains_iff_mem]
      exact h name .refl
    rw [shapeOfNameAmong, shapeOfNameAmong, hself]
    cases hds : env.declsOf? name with
    | none => rfl
    | some ds =>
      -- The name itself joins both stacks, and what its declarations ask for, it asks for.
      have hdecls : ∀ d ∈ ds, env.shapeOfDecl (env.shapeOfNameAmong n (name :: visiting)) d =
          env.shapeOfDecl (env.shapeOfNameAmong n (name :: visiting')) d := by
        refine fun d hd => shapeOfDecl_congr fun other hother => ih fun last hlast => ?_
        rw [List.mem_cons, List.mem_cons, h last (.head ⟨ds, hds, d, hd, hother⟩ hlast)]
      simp only [List.map_congr_left hdecls]

/-- It does not matter how many names are allowed for, as long as they are enough. -/
theorem shapeOfNameAmong_allowance {n m : Nat} {visiting : List String} (hv : Orderly env visiting)
    (hn : env.decls.length < n + visiting.length) (hm : env.decls.length < m + visiting.length)
    (name : String) :
    env.shapeOfNameAmong n visiting name = env.shapeOfNameAmong m visiting name := by
  -- The resolution that records its obstacles returns both shapes from the same stack.
  obtain ⟨_, _, _, h, -⟩ := sound_resolveName n n hv hn hn name ⟨visiting, [], [], []⟩ rfl
  obtain ⟨_, _, _, h', -⟩ := sound_resolveName n m hv hn hm name ⟨visiting, [], [], []⟩ rfl
  exact congrArg Prod.fst (h.symm.trans h')

/-- **A name has the shape of what it stands for**, unless its resolution comes back to it. -/
theorem shapeOfName_of_alias {name : String} {t : TypeExpr}
    (h : env.declsOf? name = some [⟨.alias (some t), false⟩])
    (hrec : ¬ Relation.TransGen env.Asks name name) : env.shapeOfName name = env.shapeOf t := by
  have hknown : env.isKnown name := by simp [isKnown, h]
  have hstack : Orderly env [name] := ⟨List.nodup_singleton name, by simpa using hknown⟩
  have hhead : ∀ other ∈ t.heads,
      env.shapeOfNameAmong env.decls.length [name] other = env.shapeOfName other := by
    intro other hother
    have hasks : env.Asks name other := ⟨_, h, _, List.mem_singleton_self _, hother⟩
    -- Below the alias the alias is on the way, and one name less is allowed for.  Neither matters,
    -- since the resolution does not come back to the alias.
    rw [shapeOfNameAmong_allowance hstack (m := env.decls.length + 1) (Nat.lt_succ_self _)
      (Nat.lt_add_of_pos_right Nat.two_pos)]
    refine shapeOfNameAmong_congr _ fun last hlast => ?_
    have hne : last ≠ name := fun heq => hrec (.head' hasks (heq ▸ hlast))
    simp [hne]
  rw [shapeOfName, shapeOfNameAmong, h]
  simp only [List.contains_nil, Bool.false_eq_true, if_false, List.map_singleton]
  rw [Shape.mergeAll_singleton]
  · exact shapeWith_congr false hhead
  · exact distinct_shapeWith (distinct_shapeOfNameAmong _ _) false t

end TypeEnv

end FlowAnalysis
