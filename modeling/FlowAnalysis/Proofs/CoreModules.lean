import FlowAnalysis.Proofs.Codes
import FlowAnalysis.Proofs.ValidRecords

/-!
# Classes from core modules

Whatever is imported from a core module and constructed has to be registered.  The imports that are
looked up are those from lists of names; what is taken from a module by default or as a namespace
counts only by its name, so of such classes a flow is sure to construct only registered ones if they
are named like bubbles.

## Main definitions

* `ImportForm`, `Syntax.Source.importBindings` — the names that a source imports, in every form.
* `Syntax.Source.denoted?` — the class that a construction with an imported name denotes.

## Main results

* `Flow.exists_construction_iff` — **which constructions with imported names are looked at.**
* `Analyzer.registered_of_valid` — **a valid flow constructs only registered classes from the lists
  of names of core modules.**
-/

namespace FlowAnalysis

open Syntax

/-! ### Imported names -/

/-- How a name is imported. -/
inductive ImportForm
  /-- From a list of names, under its own name or under an alias. -/
  | listed
  /-- From a list of names, where its own name is written in quotes. -/
  | quoted
  /-- As what the module exports by default. -/
  | default
  /-- As the namespace of everything that the module exports. -/
  | everything
  deriving DecidableEq

namespace Syntax.Source

variable (s : Source)

/-- The name that a part of an import from a module binds.  By default a class is taken to have the
name that it is given. -/
def bindingOf? (module : String) (t : Tree) : Option (ImportForm × Import) :=
  if t.is .importSpecifier then
    (t.field? .name).map fun name =>
      if name.is .string then
        (.quoted, ⟨s.textOf ((t.field? .alias).getD name), (s.stringValue? name).getD "", module⟩)
      else (.listed, ⟨s.textOf ((t.field? .alias).getD name), s.textOf name, module⟩)
  else if t.is .importClause then
    (t.named.find? (·.is .identifier)).map fun name =>
      (.default, ⟨s.textOf name, s.textOf name, module⟩)
  else if t.is .namespaceImport then
    (t.named.find? (·.is .identifier)).map fun name =>
      (.everything, ⟨s.textOf name, s.textOf name, module⟩)
  else none

/-- The names that a statement imports, in every form. -/
def bindingsOfStatement (t : Tree) : List (ImportForm × Import) :=
  match (t.field? .source).bind s.stringValue? with
  | some module => t.nodes.filterMap (s.bindingOf? module)
  | none => []

/-- The names that the statements at the top of a source import, in every form. -/
def importBindings : List (ImportForm × Import) :=
  (s.root.named.filter (·.is .importStatement)).flatMap s.bindingsOfStatement

/-- Whether an expression is a name, perhaps in wrappers. -/
def isName (t : Tree) (name : String) : Bool := t.bare.is .identifier && s.textOf t.bare = name

/-- The class that a construction denotes if its class is written with an imported name: for a
member of a namespace the name of the member, otherwise what the name stands for. -/
def denoted? (b : ImportForm × Import) (t : Tree) : Option String :=
  if t.is .newExpression then
    (t.field? .constructor).bind fun c =>
      if b.1 = .everything then
        if c.bare.is .memberExpression &&
            (c.bare.field? .object).any (s.isName · b.2.localName) then
          (c.bare.field? .property).map s.textOf
        else none
      else if s.isName c b.2.localName then some b.2.imported else none
  else none

end Syntax.Source

namespace Flow

variable {s : Source} {registry : Registry} {config : Config} {t : Tree} {b : ImportForm × Import}
  {i : Import} {className : String} {module : Option String}

/-- The imports that are looked up are bindings from lists of names. -/
theorem exists_binding_of_mem_importsOf (h : i ∈ importsOf s) : ∃ b ∈ s.importBindings,
    b.2.localName = i.localName ∧ (b = (.listed, i) ∨ b.1 = .quoted) := by
  obtain ⟨statement, hstatement, hi⟩ := List.mem_flatMap.1 h
  unfold importsOfStatement at hi
  split at hi
  · next module hmodule =>
    obtain ⟨u, hu, hi⟩ := List.mem_filterMap.1 hi
    obtain ⟨hu, hkind⟩ := List.mem_filter.1 hu
    obtain ⟨name, hname, rfl⟩ := Option.map_eq_some_iff.1 hi
    have hmem : ∀ b, s.bindingOf? module u = some b → b ∈ s.importBindings := by
      intro b hb
      refine List.mem_flatMap.2 ⟨statement, hstatement, ?_⟩
      rw [Source.bindingsOfStatement, hmodule]
      exact List.mem_filterMap.2 ⟨u, hu, hb⟩
    have hbinding := hmem _ (by rw [Source.bindingOf?, if_pos hkind, hname, Option.map_some])
    refine ⟨_, hbinding, ?_⟩
    split
    · exact ⟨rfl, .inr rfl⟩
    · exact ⟨rfl, .inl rfl⟩
  · simp at hi

/-- What is bound from a list of names is looked up. -/
theorem mem_importsOf_of_listed (h : (.listed, i) ∈ s.importBindings) : i ∈ importsOf s := by
  obtain ⟨statement, hstatement, hi⟩ := List.mem_flatMap.1 h
  refine List.mem_flatMap.2 ⟨statement, hstatement, ?_⟩
  unfold Source.bindingsOfStatement at hi
  split at hi
  · next module hmodule =>
    obtain ⟨u, hu, hi⟩ := List.mem_filterMap.1 hi
    unfold Source.bindingOf? at hi
    split at hi
    · next hkind =>
      obtain ⟨name, hname, hi⟩ := Option.map_eq_some_iff.1 hi
      split at hi
      · simp at hi
      · obtain rfl := (Prod.mk.inj hi).2
        have hspecifier : u ∈ statement.nodes.filter (·.is .importSpecifier) :=
          List.mem_filter.2 ⟨hu, hkind⟩
        rw [importsOfStatement, hmodule]
        refine List.mem_filterMap.2 ⟨u, hspecifier, ?_⟩
        rw [importOf?, hname, Option.map_some]
    · split at hi
      · obtain ⟨_, -, hi⟩ := Option.map_eq_some_iff.1 hi
        simp at hi
      · split at hi
        · obtain ⟨_, -, hi⟩ := Option.map_eq_some_iff.1 hi
          simp at hi
        · simp at hi
  · simp at hi

/-- A name that is bound once is looked up if and only if it is bound from a list of names. -/
theorem find?_importsOf (hb : b ∈ s.importBindings) (hform : b.1 ≠ .quoted)
    (honce : ∀ b' ∈ s.importBindings, b'.2.localName = b.2.localName → b' = b) :
    (importsOf s).reverse.find? (·.localName = b.2.localName) =
      if b.1 = .listed then some b.2 else none := by
  have hlooked : ∀ i ∈ importsOf s, i.localName = b.2.localName → b = (.listed, i) := by
    intro i hi hname
    obtain ⟨b', hb', hlocal, hcase⟩ := exists_binding_of_mem_importsOf hi
    obtain rfl := honce b' hb' (hlocal.trans hname)
    exact hcase.resolve_right hform
  cases hfind : (importsOf s).reverse.find? (·.localName = b.2.localName) with
  | none =>
    rw [if_neg]
    intro hlisted
    have hmem : b.2 ∈ importsOf s := mem_importsOf_of_listed (hlisted ▸ hb)
    have hno := List.find?_eq_none.1 hfind b.2 (List.mem_reverse.2 hmem)
    simp at hno
  | some i =>
    have hi := List.mem_reverse.1 (List.mem_of_find?_eq_some hfind)
    have hname : i.localName = b.2.localName := by simpa using List.find?_some hfind
    rw [hlooked i hi hname, if_pos rfl]

/-- By default a class is taken to have the name that it is given. -/
theorem imported_of_default (hb : b ∈ s.importBindings) (hform : b.1 = .default) :
    b.2.imported = b.2.localName := by
  obtain ⟨statement, -, hb⟩ := List.mem_flatMap.1 hb
  unfold Source.bindingsOfStatement at hb
  split at hb
  · obtain ⟨u, -, hb⟩ := List.mem_filterMap.1 hb
    unfold Source.bindingOf? at hb
    split at hb
    · obtain ⟨name, -, rfl⟩ := Option.map_eq_some_iff.1 hb
      split at hform <;> simp at hform
    · split at hb
      · obtain ⟨name, -, rfl⟩ := Option.map_eq_some_iff.1 hb
        rfl
      · split at hb
        · obtain ⟨name, -, rfl⟩ := Option.map_eq_some_iff.1 hb
          rfl
        · simp at hb
  · simp at hb

/-! ### Constructions with imported names -/

theorem is_newExpression_of_denoted? (h : s.denoted? b t = some className) :
    t.is .newExpression := by
  unfold Source.denoted? at h
  split at h
  · assumption
  · simp at h

/-- The class of a construction with an imported name, and its module if that is looked up. -/
theorem constructed?_of_denoted? (hb : b ∈ s.importBindings) (hform : b.1 ≠ .quoted)
    (honce : ∀ b' ∈ s.importBindings, b'.2.localName = b.2.localName → b' = b)
    (hdenoted : s.denoted? b t = some className) : constructed? s (importsOf s) t =
      some (className, if b.1 = .listed then some b.2.module else none) := by
  rw [Source.denoted?, if_pos (is_newExpression_of_denoted? hdenoted)] at hdenoted
  obtain ⟨c, hc, hdenoted⟩ := Option.bind_eq_some_iff.1 hdenoted
  rw [constructed?, hc, Option.bind_some]
  split at hdenoted
  · next heverything =>
    obtain ⟨hmember, hproperty⟩ := Option.ite_none_right_eq_some.1 hdenoted
    obtain ⟨hmember, -⟩ := Bool.and_eq_true_iff.1 hmember
    obtain ⟨p, hp, rfl⟩ := Option.map_eq_some_iff.1 hproperty
    have hname : c.bare.is .identifier = false :=
      Tree.is_eq_false_of (Tree.is_iff.1 hmember) (by decide)
    simp [hname, hmember, hp, heverything]
  · next hother =>
    obtain ⟨hname, himported⟩ := Option.ite_none_right_eq_some.1 hdenoted
    obtain rfl := Option.some.inj himported
    simp only [Source.isName, Bool.and_eq_true, decide_eq_true_eq] at hname
    obtain ⟨hname, hlocal⟩ := hname
    rw [if_pos hname]
    dsimp only
    rw [hlocal, find?_importsOf hb hform honce]
    cases hcase : b.1 with
    | listed => simp
    | quoted => exact absurd hcase hform
    | default => simp [imported_of_default hb hcase]
    | everything => exact absurd hcase hother

/-- The construction of a bubble that a node is names the class that the node constructs. -/
theorem exists_construction_iff_isBubble (ht : t ∈ s.root.nodes) (hnew : t.is .newExpression)
    (h : constructed? s (importsOf s) t = some (className, module)) :
    (∃ c ∈ (Flow.of s registry config).constructions, c.node = t ∧ c.className = className) ↔
      isBubble registry config className module := by
  constructor
  · rintro ⟨c, hc, rfl, rfl⟩
    obtain ⟨⟨u, target⟩, -, hcons⟩ := List.mem_filterMap.1 hc
    obtain ⟨⟨name, source⟩, hnamed, hcons⟩ := Option.bind_eq_some_iff.1 hcons
    obtain ⟨_, hguard, hcons⟩ := Option.bind_eq_some_iff.1 hcons
    obtain rfl := Option.some.inj hcons
    obtain ⟨-, rfl⟩ := Prod.mk.inj (Option.some.inj (hnamed.symm.trans h))
    by_contra hno
    rw [guard, if_neg hno] at hguard
    cases hguard
  · intro hbubble
    rw [← Tree.walkWith_fst receiver none] at ht
    obtain ⟨⟨u, target⟩, hwalk, rfl⟩ := List.mem_map.1 ht
    have hreceived : (u, target) ∈ received .newExpression s.root :=
      List.mem_filter.2 ⟨hwalk, hnew⟩
    have hcons : constructionOf? s (importsOf s) registry config u target = some ⟨u, className,
        ((u.field? .arguments).map Tree.named).getD [], bindingOf? s target⟩ := by
      simp only [constructionOf?, h, Option.bind_eq_bind, Option.bind_some, guard]
      rw [if_pos hbubble]
      rfl
    exact ⟨_, List.mem_filterMap.2 ⟨(u, target), hreceived, hcons⟩, rfl, rfl⟩

/-- **Which constructions with imported names are looked at**: those of registered classes, of
classes from the lists of names of core modules, and of classes that are named like bubbles. -/
theorem exists_construction_iff (ht : t ∈ s.root.nodes) (hb : b ∈ s.importBindings)
    (hform : b.1 ≠ .quoted)
    (honce : ∀ b' ∈ s.importBindings, b'.2.localName = b.2.localName → b' = b)
    (hcore : config.coreModules.contains b.2.module) (hdenoted : s.denoted? b t = some className) :
    (∃ c ∈ (Flow.of s registry config).constructions, c.node = t ∧ c.className = className) ↔
      registry.contains className ∨ b.1 = .listed ∨ config.isPrimitiveName className := by
  rw [exists_construction_iff_isBubble ht (is_newExpression_of_denoted? hdenoted)
    (constructed?_of_denoted? hb hform honce hdenoted), isBubble]
  simp only [Bool.or_eq_true, or_assoc]
  refine or_congr_right (or_congr_left ?_)
  split
  · next hlisted => simpa [hlisted] using hcore
  · next hother => simp [hother]

end Flow

/-! ### Valid flows -/

namespace Analyzer

variable {a : Analyzer} {text : String}

/-- **A valid flow constructs only registered classes from the lists of names of core modules**, and
of what core modules export by default or in a namespace only registered classes or classes that are
not named like bubbles. -/
theorem registered_of_valid (hvalid : (a.validate text).valid) : ∃ s, Source.parse text = .ok s ∧
    ∀ b ∈ s.importBindings, a.config.coreModules.contains b.2.module →
      (∀ b' ∈ s.importBindings, b'.2.localName = b.2.localName → b' = b) →
        ∀ t ∈ s.root.nodes, ∀ className, s.denoted? b t = some className →
          b.1 = .listed ∨ b.1 ≠ .quoted ∧ a.config.isPrimitiveName className →
            a.registry.contains className := by
  cases hs : Source.parse text with
  | error e =>
    unfold validate at hvalid
    simp [hs, Verdict.valid] at hvalid
  | ok s =>
    rw [validate_of_parse hs] at hvalid
    refine ⟨s, rfl, fun b hb hcore honce t ht className hdenoted hcase => ?_⟩
    have hform : b.1 ≠ .quoted := by
      rcases hcase with hlisted | ⟨hform, -⟩
      · rw [hlisted]
        decide
      · exact hform
    obtain ⟨c, hc, -, rfl⟩ := (Flow.exists_construction_iff ht hb hform honce hcore hdenoted).2
      (.inr (hcase.imp_right And.right))
    have hregistered := (Flow.checks_of_valid hvalid).2.2.1
    rw [Flow.checkRegistered, List.map_eq_nil_iff, List.filter_eq_nil_iff] at hregistered
    simpa using hregistered c hc

/-- A flow that constructs a class which it imports from a core module under an alias. -/
def aliasedText : String :=
  "import\x7bA as X\x7dfrom'm';class F extends B\x7bh()\x7bnew X\x7d\x7d"

/-- An analysis with one known class and one core module. -/
def aliasedAnalyzer : Analyzer where
  registry := .ofList [⟨"A", "a", none, .tool, .object ⟨none, [], [], false⟩, .none⟩]
  config := { Config.standard with baseClass := "B", entryMethod := "h", coreModules := ["m"] }

theorem registered_of_valid_aliasedText : (aliasedAnalyzer.validate aliasedText).valid ∧
    ∃ s b t, (Source.parse aliasedText = .ok s ∧ b ∈ s.importBindings ∧
      aliasedAnalyzer.config.coreModules.contains b.2.module ∧
      (∀ b' ∈ s.importBindings, b'.2.localName = b.2.localName → b' = b) ∧ t ∈ s.root.nodes ∧
      s.denoted? b t = some "A" ∧ b.1 = .listed) ∧ aliasedAnalyzer.registry.contains "A" := by
  have hread : (Source.parse aliasedText).toOption.any fun s => (aliasedAnalyzer.check s).valid &&
      decide (s.importBindings = [(.listed, ⟨"X", "A", "m"⟩)]) &&
      s.root.nodes.any fun t => decide (s.denoted? (.listed, ⟨"X", "A", "m"⟩) t = some "A") := by
    decide +kernel
  cases hs : Source.parse aliasedText with
  | error e =>
    rw [hs] at hread
    simp [Except.toOption] at hread
  | ok s =>
    rw [hs] at hread
    change (Option.any _ (some s)) = true at hread
    rw [Option.any_some] at hread
    simp only [Bool.and_eq_true, decide_eq_true_eq, List.any_eq_true] at hread
    obtain ⟨⟨hvalid, hbindings⟩, t, ht, hdenoted⟩ := hread
    rw [← validate_of_parse hs] at hvalid
    have hb : ((.listed, ⟨"X", "A", "m"⟩) : ImportForm × Import) ∈ s.importBindings :=
      hbindings ▸ List.mem_singleton_self _
    have honce : ∀ b' ∈ s.importBindings, b'.2.localName = "X" →
        b' = (.listed, ⟨"X", "A", "m"⟩) :=
      fun b' hb' _ => List.mem_singleton.1 (hbindings ▸ hb')
    obtain ⟨s', hs', hregistered⟩ := registered_of_valid hvalid
    obtain rfl := Except.ok.inj (hs.symm.trans hs')
    exact ⟨hvalid, s, _, t, ⟨rfl, hb, by decide, honce, ht, hdenoted, rfl⟩,
      hregistered _ hb (by decide) honce t ht "A" hdenoted (.inl rfl)⟩

end Analyzer

end FlowAnalysis
