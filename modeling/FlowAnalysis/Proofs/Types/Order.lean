import FlowAnalysis.Proofs.Matched
import FlowAnalysis.Proofs.Types.Names

/-!
# The order of declarations

The declarations of one name are all put together, so which of them comes first makes a difference
to the details of properties only.  In whatever order a flow declares its types, every type is open or
not, and has properties of the same names.

## Main definitions

* `Shape.SameNames` — shapes that are open together and have properties of the same names.

## Main results

* `TypeEnv.sameNames_shapeOf` — **the names of properties do not depend on the order in which the
  declarations of a name come.**
* `TypeEnv.rel_declsOf?_of` — declarations in another order are the same declarations of each
  name in another order.
-/

namespace FlowAnalysis

/-! ### Shapes -/

namespace Shape

/-- Whether a property is listed, as opposed to one that a shape may have because it is open. -/
def lists (s : Shape) (name : String) : Bool := s.fields.any fun e => e.1 = name

/-- Two shapes are open together and list properties of the same names. -/
structure SameNames (s t : Shape) : Prop where
  isOpen : s.isOpen = t.isOpen
  lists : ∀ name, s.lists name = t.lists name

theorem SameNames.refl (s : Shape) : s.SameNames s := ⟨rfl, fun _ => rfl⟩

/-- Such shapes have the same properties. -/
theorem SameNames.has_eq {s t : Shape} (h : s.SameNames t) (name : String) :
    s.has name = t.has name := by
  have hlists := h.lists name
  unfold Shape.lists at hlists
  rw [has, has, h.isOpen, hlists]

variable {s t s' t' : Shape} {shapes shapes' : List Shape}

theorem lists_merge (s t : Shape) (name : String) :
    (s.merge t).lists name = (s.lists name || t.lists name) := any_foldl_put name t.fields s.fields

theorem lists_foldl_merge (s : Shape) (shapes : List Shape) (name : String) :
    (shapes.foldl merge s).lists name = (s.lists name || shapes.any (·.lists name)) := by
  induction shapes generalizing s with
  | nil => simp
  | cons t ts ih => rw [List.foldl_cons, ih, lists_merge, List.any_cons, Bool.or_assoc]

@[simp] theorem lists_mergeAll (shapes : List Shape) (name : String) :
    (mergeAll shapes).lists name = shapes.any (·.lists name) := lists_foldl_merge empty shapes name

/-- A union lists what all its members list, and if it is open what one of them lists. -/
theorem lists_common (shapes : List Shape) (name : String) : (common shapes).lists name =
    if shapes.any (·.isOpen) then shapes.any (·.lists name)
    else !shapes.isEmpty && shapes.all (·.lists name) := by
  unfold common
  split
  · exact lists_foldl_merge unknown shapes name
  · cases shapes with
    | nil => rfl
    | cons first rest =>
      rw [Bool.eq_iff_iff]
      simp only [lists, List.any_eq_true, List.mem_filter, List.all_eq_true, decide_eq_true_eq,
        List.isEmpty_cons, Bool.not_false, Bool.true_and, List.forall_mem_cons]
      constructor
      · rintro ⟨e, ⟨he, hall⟩, rfl⟩
        exact ⟨⟨e, he, rfl⟩, hall⟩
      · rintro ⟨⟨e, he, rfl⟩, hall⟩
        exact ⟨e, ⟨he, hall⟩, rfl⟩

theorem SameNames.merge (hs : s.SameNames s') (ht : t.SameNames t') :
    (s.merge t).SameNames (s'.merge t') where
  isOpen := by rw [isOpen_merge, isOpen_merge, hs.isOpen, ht.isOpen]
  lists name := by rw [lists_merge, lists_merge, hs.lists, ht.lists]

theorem SameNames.mergeAll (h : shapes.Matched SameNames shapes') :
    (Shape.mergeAll shapes).SameNames (Shape.mergeAll shapes') where
  isOpen := by
    rw [isOpen_mergeAll, isOpen_mergeAll]
    exact h.any_eq fun _ _ hs => hs.isOpen
  lists name := by
    rw [lists_mergeAll, lists_mergeAll]
    exact h.any_eq fun _ _ hs => hs.lists name

theorem SameNames.common (h : shapes.Matched SameNames shapes') :
    (Shape.common shapes).SameNames (Shape.common shapes') := by
  have hempty : shapes.isEmpty = shapes'.isEmpty := by
    rw [Bool.eq_iff_iff, List.isEmpty_iff_length_eq_zero, List.isEmpty_iff_length_eq_zero,
      h.length_eq]
  have hopen : shapes.any (·.isOpen) = shapes'.any (·.isOpen) := h.any_eq fun _ _ hs => hs.isOpen
  constructor
  · rw [isOpen_common, isOpen_common, hempty, hopen]
  · intro name
    rw [lists_common, lists_common, hempty, hopen, h.any_eq fun _ _ hs => hs.lists name,
      h.all_eq fun _ _ hs => hs.lists name]

theorem SameNames.withOptional (h : s.SameNames s') (optional : Bool) :
    (s.withOptional optional).SameNames (s'.withOptional optional) := by
  refine ⟨h.isOpen, fun name => ?_⟩
  have hlists := h.lists name
  simpa [Shape.lists, Shape.withOptional, Function.comp_def] using hlists

theorem SameNames.modify {name : String} {modify : Shape → Shape}
    (hm : TypeEnv.modifier? name = some modify) (h : s.SameNames s') :
    (modify s).SameNames (modify s') := by
  unfold TypeEnv.modifier? at hm
  split at hm
  · cases hm
    exact h.withOptional true
  · cases hm
    exact h.withOptional false
  · cases hm
    exact h
  · cases hm

end Shape

/-! ### Types -/

namespace TypeEnv

open Shape

variable {env env' : TypeEnv} {f f' : String → Shape}

/-- A type has properties of the same names if the names in it do. -/
theorem sameNames_shapeWith (hknown : ∀ name, env'.isKnown name = env.isKnown name)
    (hf : ∀ name, (f' name).SameNames (f name)) (builtin : Bool) (t : TypeExpr) :
    (env'.shapeWith f' builtin t).SameNames (env.shapeWith f builtin t) := by
  have hall : ∀ ts : List TypeExpr,
      (∀ t ∈ ts, (env'.shapeWith f' builtin t).SameNames (env.shapeWith f builtin t)) →
        (ts.map (env'.shapeWith f' builtin)).Matched SameNames
          (ts.map (env.shapeWith f builtin)) := by
    intro ts h
    refine .of_forall₂ ?_
    rwa [List.forall₂_map_left_iff, List.forall₂_map_right_iff, List.forall₂_same]
  induction t using TypeExpr.induction with
  | named name =>
    rw [shapeWith, shapeWith]
    exact hf name
  | generic name arguments ih =>
    have hdeclared : (if env'.isKnown name then f' name else .unknown).SameNames
        (if env.isKnown name then f name else .unknown) := by
      rw [hknown name]
      split
      · exact hf name
      · exact .refl _
    rw [shapeWith, shapeWith]
    cases hm : modifier? name with
    | none => exact hdeclared
    | some modify =>
      cases arguments with
      | nil => exact hdeclared
      | cons t ts => exact (ih t List.mem_cons_self).modify hm
  | object members =>
    rw [shapeWith, shapeWith]
    exact .refl _
  | intersection parts ih =>
    rw [shapeWith, shapeWith, shapesWith_eq, shapesWith_eq]
    exact .mergeAll (hall parts ih)
  | union parts ih =>
    rw [shapeWith, shapeWith, shapesOfPresent_eq, shapesOfPresent_eq]
    exact .common (hall _ fun t ht => ih t (List.mem_of_mem_filter ht))
  | wrapped inner ih =>
    rw [shapeWith, shapeWith]
    exact ih
  | _ =>
    rw [shapeWith, shapeWith] <;> first | exact .refl _ | simp

theorem sameNames_shapeOfDecl (hknown : ∀ name, env'.isKnown name = env.isKnown name)
    (hf : ∀ name, (f' name).SameNames (f name)) (d : TypeDecl) :
    (env'.shapeOfDecl f' d).SameNames (env.shapeOfDecl f d) := by
  unfold shapeOfDecl
  match d.declared with
  | .interface parents body =>
    simp only [shapesWith_eq]
    refine SameNames.merge (.mergeAll (.of_forall₂ ?_)) (.refl _)
    rw [List.forall₂_map_left_iff, List.forall₂_map_right_iff, List.forall₂_same]
    exact fun t _ => sameNames_shapeWith hknown hf d.builtin t
  | .alias none => exact .refl _
  | .alias (some t) => exact sameNames_shapeWith hknown hf d.builtin t

variable (hdecls : ∀ name, Option.Rel List.Perm (env'.declsOf? name) (env.declsOf? name))

include hdecls

theorem isKnown_eq (name : String) : env'.isKnown name = env.isKnown name := by
  unfold isKnown
  have h := hdecls name
  generalize env'.declsOf? name = ds', env.declsOf? name = ds at h
  cases h <;> rfl

/-- **The names of properties of a declared name do not depend on the order of its declarations**:
whichever names are on the way, and however many are allowed for. -/
theorem sameNames_shapeOfNameAmong (n : Nat) (visiting : List String) (name : String) :
    (env'.shapeOfNameAmong n visiting name).SameNames (env.shapeOfNameAmong n visiting name) := by
  induction n generalizing visiting name with
  | zero => exact .refl _
  | succ n ih =>
    rw [shapeOfNameAmong, shapeOfNameAmong]
    split
    · exact .refl _
    · have h := hdecls name
      generalize env'.declsOf? name = found', env.declsOf? name = found at h
      cases h with
      | none => exact .refl _
      | @some ds' ds hperm =>
        refine .mergeAll ⟨_, hperm.map _, ?_⟩
        rw [List.forall₂_map_left_iff, List.forall₂_map_right_iff, List.forall₂_same]
        exact fun d _ => sameNames_shapeOfDecl (isKnown_eq hdecls) (ih (name :: visiting)) d

/-- **The names of properties do not depend on the order in which the declarations of a name
come.** -/
theorem sameNames_shapeOf (t : TypeExpr) : (env'.shapeOf t).SameNames (env.shapeOf t) := by
  refine sameNames_shapeWith (isKnown_eq hdecls) (fun name => ?_) false t
  -- Both environments resolve the name with as many names allowed for as they declare together.
  have hnil : ∀ env : TypeEnv, Orderly env [] := fun _ => ⟨List.nodup_nil, nofun⟩
  have hmore := env'.shapeOfNameAmong_allowance (m := env'.decls.length + env.decls.length + 1)
    (hnil env') (Nat.lt_succ_self _) (by simp only [List.length_nil]; omega) name
  have hmore' := env.shapeOfNameAmong_allowance (m := env'.decls.length + env.decls.length + 1)
    (hnil env) (Nat.lt_succ_self _) (by simp only [List.length_nil]; omega) name
  rw [shapeOfName, shapeOfName, hmore, hmore']
  exact sameNames_shapeOfNameAmong hdecls _ [] name

end TypeEnv

/-! ### Declarations -/

namespace TypeEnv

/-- The declarations of a name that a name of the flow is declared in addition to: built-in ones
are replaced. -/
def retained (env : TypeEnv) (name : String) : List TypeDecl :=
  if ((env.declsOf? name).getD []).all (·.builtin) then [] else (env.declsOf? name).getD []

theorem declsOf?_declare (env : TypeEnv) (k : String) {d : TypeDecl} (hown : d.builtin = false)
    (name : String) : (env.declare k d).declsOf? name =
      if k = name then some (env.retained name ++ [d]) else env.declsOf? name := by
  unfold declare declsOf? retained
  by_cases hk : k = name
  · subst hk
    simp [hown, declsOf?]
  · rw [if_neg hk]
    exact Keyed.get?_put_ne _ _ (Ne.symm hk)

/-- The declarations of a name once the declarations of a flow have been added. -/
theorem declsOf?_foldl_declare (env : TypeEnv) {decls : List (String × TypeDecl)}
    (hown : ∀ e ∈ decls, e.2.builtin = false) (name : String) :
    (decls.foldl (fun env e => env.declare e.1 e.2) env).declsOf? name =
      if (decls.filter (·.1 = name)).isEmpty then env.declsOf? name
      else some (env.retained name ++ (decls.filter (·.1 = name)).map (·.2)) := by
  induction decls generalizing env with
  | nil => rfl
  | cons e rest ih =>
    rw [List.forall_mem_cons] at hown
    rw [List.foldl_cons, ih _ hown.2, retained, declsOf?_declare env e.1 hown.1]
    by_cases hname : e.1 = name
    · -- From the first declaration of the flow on there is one that is not built in.
      rw [List.filter_cons_of_pos (by simpa using hname), if_pos hname]
      simp only [Option.getD_some, List.all_append, List.all_cons, hown.1, Bool.false_and,
        Bool.and_false, Bool.false_eq_true, if_false, List.isEmpty_cons, List.map_cons,
        List.append_assoc, List.singleton_append]
      split
      · next hnone => rw [List.isEmpty_iff.1 hnone, List.map_nil]
      · rfl
    · rw [List.filter_cons_of_neg (by simpa using hname), if_neg hname, retained]

/-- **Declarations in another order are the same declarations of each name in another order.** -/
theorem rel_declsOf?_of {flow flow' : Syntax.Source} (builtins : Option Syntax.Source)
    (h : (flow'.typeDecls false).Perm (flow.typeDecls false)) (name : String) :
    Option.Rel List.Perm ((TypeEnv.of flow' builtins).declsOf? name)
      ((TypeEnv.of flow builtins).declsOf? name) := by
  have hown : ∀ s : Syntax.Source, ∀ e ∈ s.typeDecls false, e.2.builtin = false := by
    intro s e he
    obtain ⟨t, -, he⟩ := List.mem_filterMap.1 he
    obtain ⟨_, -, rfl⟩ := Option.map_eq_some_iff.1 he
    rfl
  have hfilter := h.filter (·.1 = name)
  rw [TypeEnv.of, TypeEnv.of, ofDecls, ofDecls, List.foldl_append, List.foldl_append,
    declsOf?_foldl_declare _ (hown flow'), declsOf?_foldl_declare _ (hown flow)]
  rw [show ((flow'.typeDecls false).filter (·.1 = name)).isEmpty =
    ((flow.typeDecls false).filter (·.1 = name)).isEmpty by
      rw [Bool.eq_iff_iff, List.isEmpty_iff_length_eq_zero, List.isEmpty_iff_length_eq_zero,
        hfilter.length_eq]]
  split
  · cases (List.foldl (fun env e => env.declare e.1 e.2) (⟨[]⟩ : TypeEnv)
      ((builtins.map (·.typeDecls true)).getD [])).declsOf? name with
    | none => exact .none
    | some ds => exact .some (.refl ds)
  · exact .some (List.Perm.append_left _ (hfilter.map _))

end TypeEnv

end FlowAnalysis
