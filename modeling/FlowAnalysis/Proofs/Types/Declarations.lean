import FlowAnalysis.Proofs.Syntax.Sources
import FlowAnalysis.Proofs.Trimming.Walk
import FlowAnalysis.Proofs.Types.Order

/-!
# The declarations of a name

A flow may declare types under the names of built-in ones.  A name that the flow declares has the
declarations of the flow, all of them, and no built-in one; any other name keeps its built-in
declarations.  What counts are declarations that stand inside no other one: an expression in a type,
such as the default of a parameter, may hold declarations of its own, and these are not looked for.

## Main definitions

* `Syntax.Tree.surrounded` — the nodes of a tree, each with the nodes around it.
* `Syntax.Source.outerDeclarations` — the declarations that stand inside no other one.
* `Syntax.Source.declared` — what the declarations of a name say.

## Main results

* `Syntax.Source.filter_typeDecls` — the declarations that are found under a name.
* `TypeEnv.declsOf?_foldl_builtin` — built-in declarations are added up.
* `TypeEnv.declsOf?_of` — **what is declared under a name.**
* `TypeEnv.declsOf?_of_nestedText` — a declaration inside another one replaces nothing.
-/

namespace FlowAnalysis

open Syntax

/-! ### Nodes around a node -/

namespace Syntax.Tree

/-- The nodes of a tree in reading order, each with the nodes around it, the innermost first. -/
def surrounded (t : Tree) : List (Tree × List Tree) :=
  t.walkWith (fun parent around _ => parent :: around) (fun _ _ => .enter) []

/-- The nodes of a class that stand inside no other one are those to which a walk comes that goes no
further at a node of the class. -/
theorem filter_walkWith_around (p : Tree → Bool) (t : Tree) (around : List Tree) :
    ((t.walkWith (fun parent around _ => parent :: around) (fun _ _ => .enter) around).filter
        fun x => p x.1 && !x.2.any p).map Prod.fst =
      if around.any p then [] else (t.walk fun n => if p n then .keep else .enter).filter p := by
  induction t using Tree.induction generalizing around with
  | node l r span ts ih =>
    -- Around a child there is the node besides what is around the node.
    have hchildren : ts.flatMap (fun c => ((c.walkWith (fun parent around _ => parent :: around)
        (fun _ _ => .enter) (node l r span ts :: around)).filter
          fun x => p x.1 && !x.2.any p).map Prod.fst) =
        ts.flatMap fun c => if p (node l r span ts) || around.any p then []
          else (c.walk fun n => if p n then .keep else .enter).filter p := by
      refine List.flatMap_congr fun c hc => ?_
      rw [ih c hc, List.any_cons]
    rw [walkWith_eq, walk_eq, children_node]
    simp only
    rw [List.filter_cons, apply_ite (List.map Prod.fst), List.map_cons, List.filter_flatMap,
      List.map_flatMap, hchildren]
    cases haround : around.any p with
    | true => simp
    | false =>
      cases hself : p (node l r span ts) with
      | true => simp [hself]
      | false => simp [hself, List.filter_flatMap]

end Syntax.Tree

/-! ### Declarations of a source -/

namespace Syntax.Source

variable (s : Source) (builtin : Bool) (name : String)

/-- The declarations of types in a source that stand inside no other one, in reading order. -/
def outerDeclarations : List Tree :=
  (s.root.surrounded.filter fun x =>
    isTypeDeclaration x.1 && !x.2.any isTypeDeclaration).map Prod.fst

/-- Whether a node has a name. -/
def isCalled (t : Tree) : Bool := (t.field? .name).any fun n => s.textOf n = name

/-- What the declarations of a name say that stand inside no other declaration. -/
def declared : List TypeDecl :=
  (s.outerDeclarations.filter (s.isCalled name)).map fun t => ⟨s.declaredType t, builtin⟩

theorem outerDeclarations_eq : s.outerDeclarations =
    (s.root.walk fun t => if isTypeDeclaration t then .keep else .enter).filter
      isTypeDeclaration := Tree.filter_walkWith_around isTypeDeclaration s.root []

/-- **The declarations that are found under a name** are those of the name that stand inside no other
one. -/
theorem filter_typeDecls :
    ((s.typeDecls builtin).filter (·.1 = name)).map (·.2) = s.declared builtin name := by
  rw [typeDecls, ← outerDeclarations_eq, declared]
  induction s.outerDeclarations with
  | nil => rfl
  | cons t ts ih =>
    rw [List.filterMap_cons, List.filter_cons]
    cases hname : t.field? .name with
    | none => simpa [isCalled, hname] using ih
    | some n =>
      by_cases hn : s.textOf n = name
      · simpa [isCalled, hname, hn] using ih
      · simpa [isCalled, hname, hn] using ih

theorem builtin_of_mem_typeDecls {e : String × TypeDecl} (h : e ∈ s.typeDecls builtin) :
    e.2.builtin = builtin := by
  obtain ⟨t, -, h⟩ := List.mem_filterMap.1 h
  obtain ⟨n, -, rfl⟩ := Option.map_eq_some_iff.1 h
  rfl

theorem builtin_of_mem_declared {d : TypeDecl} (h : d ∈ s.declared builtin name) :
    d.builtin = builtin := by
  obtain ⟨t, -, rfl⟩ := List.mem_map.1 h
  rfl

end Syntax.Source

/-! ### Declarations of an environment -/

namespace TypeEnv

/-- A built-in declaration is added to those of its name. -/
theorem declsOf?_declare_builtin (env : TypeEnv) (k : String) {d : TypeDecl}
    (hd : d.builtin = true) (name : String) : (env.declare k d).declsOf? name =
      if k = name then some ((env.declsOf? name).getD [] ++ [d]) else env.declsOf? name := by
  unfold declare declsOf?
  by_cases hk : k = name
  · subst hk
    simp [hd]
  · rw [if_neg hk]
    exact Keyed.get?_put_ne _ _ (Ne.symm hk)

/-- **Built-in declarations are added up.** -/
theorem declsOf?_foldl_builtin (env : TypeEnv) {decls : List (String × TypeDecl)}
    (hbuiltin : ∀ e ∈ decls, e.2.builtin = true) (name : String) :
    (decls.foldl (fun env e => env.declare e.1 e.2) env).declsOf? name =
      if (decls.filter (·.1 = name)).isEmpty then env.declsOf? name
      else some ((env.declsOf? name).getD [] ++ (decls.filter (·.1 = name)).map (·.2)) := by
  induction decls generalizing env with
  | nil => rfl
  | cons e rest ih =>
    rw [List.forall_mem_cons] at hbuiltin
    rw [List.foldl_cons, ih _ hbuiltin.2, declsOf?_declare_builtin env e.1 hbuiltin.1]
    by_cases hname : e.1 = name
    · rw [List.filter_cons_of_pos (by simpa using hname), if_pos hname]
      simp only [Option.getD_some, List.isEmpty_cons, Bool.false_eq_true, if_false, List.map_cons,
        List.append_assoc, List.singleton_append]
      split
      · next hnone => rw [List.isEmpty_iff.1 hnone, List.map_nil]
      · rfl
    · rw [List.filter_cons_of_neg (by simpa using hname), if_neg hname]

/-- The declarations of a name before those of the flow are added: the built-in ones. -/
theorem declsOf?_ofDecls_builtin (prelude : Option Source) (name : String) :
    (ofDecls ((prelude.map (·.typeDecls true)).getD [])).declsOf? name =
      (prelude.map (·.declared true name)).filter (!·.isEmpty) := by
  cases prelude with
  | none => rfl
  | some p =>
    rw [Option.map_some, Option.getD_some, ofDecls,
      declsOf?_foldl_builtin _ fun e he => p.builtin_of_mem_typeDecls true he, Option.map_some,
      ← p.filter_typeDecls true name, Option.filter_some, List.isEmpty_map]
    cases hnone : ((p.typeDecls true).filter (·.1 = name)).isEmpty <;> rfl

/-- The declarations of a name: those of the flow, and if there are none the built-in ones. -/
theorem declsOf?_of_eq (flow : Source) (prelude : Option Source) (name : String) :
    (TypeEnv.of flow prelude).declsOf? name =
      if flow.declared false name = [] then
        (prelude.map (·.declared true name)).filter (!·.isEmpty)
      else some (flow.declared false name) := by
  have hbuiltin := declsOf?_ofDecls_builtin prelude name
  rw [ofDecls] at hbuiltin
  -- All that has been declared before the flow is built in, so the flow replaces it.
  have hretained : (((prelude.map (·.typeDecls true)).getD []).foldl
      (fun env e => env.declare e.1 e.2) (⟨[]⟩ : TypeEnv)).retained name = [] := by
    unfold retained
    rw [hbuiltin, if_pos]
    cases prelude with
    | none => rfl
    | some p =>
      rw [Option.map_some, Option.filter_some]
      split
      · exact List.all_eq_true.2 fun d hd => p.builtin_of_mem_declared true name hd
      · rfl
  rw [of, ofDecls, List.foldl_append,
    declsOf?_foldl_declare _ fun e he => flow.builtin_of_mem_typeDecls false he, hbuiltin,
    hretained, List.nil_append, flow.filter_typeDecls false name,
    ← flow.filter_typeDecls false name]
  simp only [List.isEmpty_iff, List.map_eq_nil_iff]

/-- **What is declared under a name.**  The declarations of a name are all built in or all of the
flow.  A name that the flow declares has the declarations of the flow, in their order; one that only
the prelude declares has those of the prelude; and no other name is known. -/
theorem declsOf?_of (flow : Source) (prelude : Option Source) (name : String) :
    (∀ ds, (TypeEnv.of flow prelude).declsOf? name = some ds →
      (∀ d ∈ ds, d.builtin = true) ∨ ∀ d ∈ ds, d.builtin = false) ∧
    (flow.declared false name ≠ [] →
      (TypeEnv.of flow prelude).declsOf? name = some (flow.declared false name)) ∧
    (flow.declared false name = [] → ∀ p ∈ prelude, p.declared true name ≠ [] →
      (TypeEnv.of flow prelude).declsOf? name = some (p.declared true name)) ∧
    ((TypeEnv.of flow prelude).isKnown name ↔
      flow.declared false name ≠ [] ∨ ∃ p ∈ prelude, p.declared true name ≠ []) := by
  unfold isKnown
  rw [declsOf?_of_eq]
  by_cases hown : flow.declared false name = []
  · simp only [if_pos hown]
    refine ⟨fun ds hds => .inl fun d hd => ?_, fun h => absurd hown h, fun _ p hp hdeclared => ?_, ?_⟩
    · obtain ⟨p, -, rfl⟩ := Option.map_eq_some_iff.1 (Option.filter_eq_some_iff.1 hds).1
      exact p.builtin_of_mem_declared true name hd
    · rw [Option.mem_def.1 hp, Option.map_some, Option.filter_some, if_pos (by simpa using hdeclared)]
    · cases prelude with
      | none => simp [hown]
      | some p => simp [hown, Option.filter_some]
  · rw [if_neg hown]
    refine ⟨fun ds hds => .inr fun d hd => ?_, fun _ => rfl, fun h => absurd h hown, by simp [hown]⟩
    obtain rfl := Option.some.inj hds
    exact flow.builtin_of_mem_declared false name hd

/-- A name counts as declared by the flow if the flow declares it. -/
theorem isFlowDeclared_of (flow : Source) (prelude : Option Source) (name : String) :
    (TypeEnv.of flow prelude).isFlowDeclared name ↔ flow.declared false name ≠ [] := by
  rw [isFlowDeclared, declsOf?_of_eq]
  by_cases hown : flow.declared false name = []
  · rw [if_pos hown, iff_false_right (not_not_intro hown)]
    intro hany
    obtain ⟨ds, hds, hany⟩ := (Option.any_eq_true _ _).1 hany
    obtain ⟨p, -, rfl⟩ := Option.map_eq_some_iff.1 (Option.filter_eq_some_iff.1 hds).1
    obtain ⟨d, hd, hdecl⟩ := List.any_eq_true.1 hany
    simp [p.builtin_of_mem_declared true name hd] at hdecl
  · rw [if_neg hown, iff_true_right hown, Option.any_some, List.any_eq_true]
    obtain ⟨d, hd⟩ := List.exists_mem_of_ne_nil _ hown
    exact ⟨d, hd, by simp [flow.builtin_of_mem_declared false name hd]⟩

/-- A type whose parameter has a default that declares a type of its own. -/
def nestedText : String := "type T=(x=()=>{interface N{}})=>void"

/-- A prelude with a type of the same name. -/
def plainText : String := "interface N{}"

/-- **A declaration inside another one replaces nothing**: the flow declares the name, and yet all
that is known under it is built in. -/
theorem declsOf?_of_nestedText : ∃ flow prelude,
    Source.parse nestedText = .ok flow ∧ Source.parse plainText = .ok prelude ∧
    (∃ t ∈ flow.root.nodes, t.is .interfaceDeclaration ∧ flow.isCalled "N" t) ∧
    ∃ ds, (TypeEnv.of flow (some prelude)).declsOf? "N" = some ds ∧ ds ≠ [] ∧
      ∀ d ∈ ds, d.builtin = true := by
  have hflow : (Source.parse nestedText).toOption.any fun s =>
      (s.root.nodes.any fun t => t.is .interfaceDeclaration && s.isCalled "N" t) &&
        (s.declared false "N").isEmpty := by decide +kernel
  have hprelude : (Source.parse plainText).toOption.any fun s =>
      !(s.declared true "N").isEmpty := by decide +kernel
  obtain ⟨flow, hflow, hread⟩ := exists_ok_of_any hflow
  obtain ⟨prelude, hprelude, hbuiltin⟩ := exists_ok_of_any hprelude
  rw [Bool.and_eq_true, List.any_eq_true] at hread
  obtain ⟨⟨t, ht, hcalled⟩, hnone⟩ := hread
  have hds := declsOf?_of_eq flow (some prelude) "N"
  rw [if_pos (List.isEmpty_iff.1 hnone), Option.map_some, Option.filter_some, if_pos hbuiltin] at hds
  refine ⟨flow, prelude, hflow, hprelude, ⟨t, ht, by simpa using hcalled⟩, _, hds, ?_, ?_⟩
  · simpa using hbuiltin
  · intro d hd
    exact prelude.builtin_of_mem_declared true "N" hd

end TypeEnv

end FlowAnalysis
