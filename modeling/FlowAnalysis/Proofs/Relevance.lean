import FlowAnalysis.Analysis
import FlowAnalysis.Proofs.Syntax.Nodes

/-!
# What a registry is asked

A registry decides which constructions are bubbles, what their parameters must be, what is said of
them in records, and which credentials they need.  Each time it is asked about a class that the
source constructs, whether that turns out to be a bubble or not; what it knows of other classes is
irrelevant.

## Main definitions

* `Syntax.Source.constructedClasses` — the classes that a source constructs.
* `Registry.Agree` — two registries know the same of some classes.

## Main results

* `Flow.of_congr` — registries that agree find the same bubbles.
* `Flow.validate_congr`, `Flow.records_congr`, `Flow.requirements_congr` — what is found in a flow
  depends on the classes of its bubbles.
* `Analyzer.analysis_congr` — **registries that agree on the classes that a source constructs give
  the same verdict and the same extraction.**
-/

namespace FlowAnalysis

open Syntax

/-- The classes that a source constructs, bubbles or not: under the name by which they were
exported, where they are imported, and without the namespace that they are taken from. -/
def Syntax.Source.constructedClasses (s : Source) : List String :=
  (s.root.nodes.filter (·.is .newExpression)).filterMap fun t =>
    (Flow.constructed? s (Flow.importsOf s) t).map Prod.fst

/-- Two registries know the same of some classes. -/
def Registry.Agree (r r' : Registry) (classes : List String) : Prop :=
  ∀ c ∈ classes, r.resolve? c = r'.resolve? c

namespace Flow

variable {r r' : Registry} {config : Config} {s : Source} {f : Flow} {c : Construction}

/-! ### Bubbles -/

theorem mem_constructedClasses {t : Tree} {target : Option Tree} {className : String}
    {module : Option String} (ht : (t, target) ∈ received .newExpression s.root)
    (h : constructed? s (importsOf s) t = some (className, module)) :
    className ∈ s.constructedClasses := by
  obtain ⟨hwalk, hkind⟩ := List.mem_filter.1 ht
  have hnode : t ∈ s.root.nodes := by
    rw [← Tree.walkWith_fst receiver none]
    exact List.mem_map_of_mem hwalk
  exact List.mem_filterMap.2 ⟨t, List.mem_filter.2 ⟨hnode, hkind⟩, by rw [h]; rfl⟩

/-- A construction of a bubble names the class that is constructed. -/
theorem constructed?_of_constructionOf? {imports : List Import} {t : Tree} {target : Option Tree}
    (h : constructionOf? s imports r config t target = some c) :
    ∃ module, constructed? s imports t = some (c.className, module) := by
  obtain ⟨⟨className, module⟩, hnamed, h⟩ := Option.bind_eq_some_iff.1 h
  obtain ⟨-, -, h⟩ := Option.bind_eq_some_iff.1 h
  obtain rfl := Option.some.inj h
  exact ⟨module, hnamed⟩

/-- The class of a bubble is one that the source constructs. -/
theorem className_mem (hc : c ∈ (Flow.of s r config).constructions) :
    c.className ∈ s.constructedClasses := by
  obtain ⟨⟨t, target⟩, ht, hcons⟩ := List.mem_filterMap.1 hc
  obtain ⟨module, hnamed⟩ := constructed?_of_constructionOf? hcons
  exact mem_constructedClasses ht hnamed

/-- Whether a node constructs a bubble is asked about the class that it names. -/
theorem constructionOf?_congr {imports : List Import} {t : Tree} (target : Option Tree)
    (h : ∀ className module, constructed? s imports t = some (className, module) →
      r.resolve? className = r'.resolve? className) :
    constructionOf? s imports r config t target = constructionOf? s imports r' config t target := by
  unfold constructionOf?
  cases hnamed : constructed? s imports t with
  | none => rfl
  | some named =>
    obtain ⟨className, module⟩ := named
    have hbubble : isBubble r config className module = isBubble r' config className module := by
      rw [isBubble, isBubble, Registry.contains, Registry.contains, h className module hnamed]
    dsimp only [Option.bind_eq_bind, Option.bind_some]
    rw [hbubble]

/-- Registries that agree on what a source constructs find the same bubbles. -/
theorem of_congr (config : Config) (h : r.Agree r' s.constructedClasses) :
    Flow.of s r config = Flow.of s r' config := by
  have hbubbles : ∀ x ∈ received .newExpression s.root,
      constructionOf? s (importsOf s) r config x.1 x.2 =
        constructionOf? s (importsOf s) r' config x.1 x.2 := by
    intro x hx
    refine constructionOf?_congr x.2 fun className module hnamed => ?_
    exact h className (mem_constructedClasses hx hnamed)
  -- Nothing but the constructions is found with the help of a registry.
  unfold Flow.of
  dsimp only
  rw [List.filterMap_congr hbubbles]

/-! ### Checks -/

theorem operationField_congr {className : String}
    (h : r.resolve? className = r'.resolve? className) :
    operationField r className = operationField r' className := by
  rw [operationField, operationField, h]

variable (h : ∀ c ∈ f.constructions, r.resolve? c.className = r'.resolve? c.className)

include h

theorem checkRegistered_congr : f.checkRegistered r = f.checkRegistered r' := by
  have hknown : ∀ c ∈ f.constructions, (!r.contains c.className) = !r'.contains c.className :=
    fun c hc => by rw [Registry.contains, Registry.contains, h c hc]
  rw [checkRegistered, checkRegistered, List.filter_congr hknown]

theorem checkParameters_congr : f.checkParameters r = f.checkParameters r' := by
  have hcheck : ∀ c ∈ f.constructions, f.checkConstruction r c = f.checkConstruction r' c :=
    fun c hc => by rw [checkConstruction, checkConstruction, h c hc]
  rw [checkParameters, checkParameters, List.flatMap_congr hcheck]

/-- The verdict on a flow depends on what is known of the classes of its bubbles. -/
theorem validate_congr (config : Config) (rules : List Rule) :
    f.validate r config rules = f.validate r' config rules := by
  rw [validate, validate, checkRegistered_congr h, checkParameters_congr h]

/-! ### Records and requirements -/

theorem records_congr (config : Config) : f.records r config = f.records r' config := by
  rw [records, records, List.mapIdx_eq_mapIdx_iff]
  intro i hi
  have hclass := h _ (List.getElem_mem hi)
  rw [recordOf, recordOf, operationField_congr hclass, hclass]

theorem requirements_congr : f.requirements r = f.requirements r' := by
  refine List.foldl_ext _ _ _ fun needed c hc => ?_
  have hkinds : f.kindsOf r c = f.kindsOf r' c := by
    rw [kindsOf, kindsOf, operationField_congr (h c hc), h c hc]
  rw [hkinds]

end Flow

/-! ### Analyses -/

namespace Analyzer

variable {r r' : Registry} {s : Source}

/-- Registries that agree on what a source constructs agree on its bubbles. -/
theorem agree_bubbles (config : Config) (h : r.Agree r' s.constructedClasses) :
    ∀ c ∈ (Flow.of s r config).constructions, r.resolve? c.className = r'.resolve? c.className :=
  fun c hc => h c.className (Flow.className_mem hc)

theorem check_congr (config : Config) (hostRules : List Rule)
    (h : r.Agree r' s.constructedClasses) :
    (Analyzer.mk r config hostRules).check s = (Analyzer.mk r' config hostRules).check s := by
  have hflow : (Analyzer.mk r config hostRules).flow s = (Analyzer.mk r' config hostRules).flow s :=
    Flow.of_congr config h
  rw [check, check, ← hflow]
  exact Flow.validate_congr (agree_bubbles config h) config (Analyzer.mk r config hostRules).rules

theorem extractFrom_congr (config : Config) (hostRules : List Rule) (sourceHash : String)
    (h : r.Agree r' s.constructedClasses) :
    (Analyzer.mk r config hostRules).extractFrom s sourceHash =
      (Analyzer.mk r' config hostRules).extractFrom s sourceHash := by
  have hflow : (Analyzer.mk r config hostRules).flow s = (Analyzer.mk r' config hostRules).flow s :=
    Flow.of_congr config h
  have hrecords : ((Analyzer.mk r config hostRules).flow s).records r config =
      ((Analyzer.mk r config hostRules).flow s).records r' config :=
    Flow.records_congr (agree_bubbles config h) config
  have hrequirements : ((Analyzer.mk r config hostRules).flow s).requirements r =
      ((Analyzer.mk r config hostRules).flow s).requirements r' :=
    Flow.requirements_congr (agree_bubbles config h)
  rw [extractFrom, extractFrom, check_congr config hostRules h, ← hflow, hrecords, hrequirements]

/-- **Registries that agree on the classes that a source constructs give the same verdict and the
same extraction**, whatever the settings and the rules of the host are. -/
theorem analysis_congr {text : String} (config : Config) (hostRules : List Rule)
    (h : ∀ s, Source.parse text = .ok s → r.Agree r' s.constructedClasses) :
    (Analyzer.mk r config hostRules).validate text =
        (Analyzer.mk r' config hostRules).validate text ∧
      (Analyzer.mk r config hostRules).extract text =
        (Analyzer.mk r' config hostRules).extract text := by
  unfold validate extract
  cases hs : Source.parse text with
  | error e => exact ⟨rfl, rfl⟩
  | ok s =>
    dsimp only
    exact ⟨check_congr config hostRules (h s hs),
      extractFrom_congr config hostRules (Hash.digest text) (h s hs)⟩

/-- A flow that constructs a class under another name, and a class of a namespace. -/
def renamedText : String :=
  "import\x7bA as X\x7dfrom'm';class F extends B\x7bh()\x7bnew X;new n.C\x7d\x7d"

theorem constructedClasses_renamedText :
    (Source.parse renamedText).toOption.map (·.constructedClasses) = some ["A", "C"] := by
  decide +kernel

/-- The name that a class has in a source is no class that a registry is asked about. -/
theorem analysis_congr_renamed :
    let known (className : String) : Definition :=
      ⟨className, className, none, .service, .permissive, .none⟩
    let r := Registry.ofList [known "A"]
    let r' := Registry.ofList [known "A", known "X", known "F"]
    let config := { Config.standard with baseClass := "B", entryMethod := "h" }
    (∀ s, Source.parse renamedText = .ok s → r.Agree r' s.constructedClasses) ∧
      (Analyzer.mk r config []).validate renamedText =
        (Analyzer.mk r' config []).validate renamedText ∧
      (Analyzer.mk r config []).extract renamedText =
        (Analyzer.mk r' config []).extract renamedText := by
  intro known r r' config
  have hagree : ∀ s, Source.parse renamedText = .ok s → r.Agree r' s.constructedClasses := by
    intro s hs c hc
    have hclasses := constructedClasses_renamedText
    rw [hs] at hclasses
    rw [show s.constructedClasses = ["A", "C"] from Option.some.inj hclasses] at hc
    simp only [List.mem_cons, List.not_mem_nil, or_false] at hc
    rcases hc with rfl | rfl <;> rfl
  exact ⟨hagree, analysis_congr config [] hagree⟩

end Analyzer

end FlowAnalysis
