import FlowAnalysis.Proofs.StepCalls
import FlowAnalysis.Proofs.Text.Location
import FlowAnalysis.Proofs.Throws

/-!
# The blocks of a verdict

The checks of a flow run one after the other, and after them the rules, so the diagnostics of a flow
come in blocks.  Each check and each rule that is always there reports under codes of its own, and
most of them go through the source as it is read and report in that order.

## Main definitions

* `Block` — what a check or a rule finds, under codes of its own.
* `Flow.checkBlocks`, `Flow.ruleBlocks` — the blocks of the checks and of the rules that are always
  there.
* `InReadingOrder` — diagnostics with places that never go back.

## Main results

* `Flow.checks_eq` — what the checks find is what stands in their blocks.
* `Flow.inReadingOrder_filterMap` — what is found at nodes in their order is in reading order.
* `Flow.pairwise_constructions` — bubbles are found in the order in which they are constructed.
* `Analyzer.validate_eq_blocks` — **the diagnostics come in blocks in the order of the checks and
  rules, and those of checks that go through the source are in reading order.**
-/

namespace FlowAnalysis

open Syntax

/-! ### Blocks -/

/-- What a check or a rule finds, under codes of its own. -/
structure Block where
  codes : List String
  found : List Diagnostic
  coded : Coded codes found

/-- What a rule finds, if it is not left out. -/
def Rule.found (r : Rule) (f : Flow) (config : Config) : List Diagnostic :=
  if config.lint.isEnabled r.name then r.check f config else []

namespace Flow

variable (f : Flow) (registry : Registry) (config : Config)

/-- What is found in the flow class, if there is exactly one. -/
def inClass (check : FlowClass → List Diagnostic) : List Diagnostic :=
  (f.flowClass?.map check).getD []

/-- What is found in the entry method of a class, if it has one. -/
def checkEntryThrows (c : FlowClass) : List Diagnostic :=
  ((c.method? config.entryMethod).map (f.checkThrows config)).getD []

/-- What all checks find, the rules left out. -/
def checks : List Diagnostic :=
  f.checkStructure config ++ f.checkCredentials ++ f.checkRegistered registry ++
    f.checkParameters registry ++ f.checkPayload

/-- The blocks of the checks, in their order. -/
def checkBlocks : List Block :=
  [⟨["flow-class"], f.checkFlowClass config, f.coded_checkFlowClass config⟩,
   ⟨["entry-method"], f.inClass (f.checkEntryMethod config),
    .getD_map fun c _ => f.coded_checkEntryMethod config c⟩,
   ⟨["throw-in-entry"], f.inClass (f.checkEntryThrows config),
    .getD_map fun _ _ => .getD_map fun entry _ => f.coded_checkThrows config entry⟩,
   ⟨["step-call-graph"], f.inClass (f.checkStepCalls config),
    .getD_map fun c _ => f.coded_checkStepCalls config c⟩,
   ⟨["literal-credentials"], f.checkCredentials, f.coded_checkCredentials⟩,
   ⟨["unregistered-bubble"], f.checkRegistered registry, f.coded_checkRegistered registry⟩,
   ⟨parameterCodes, f.checkParameters registry, f.coded_checkParameters registry⟩,
   ⟨["payload-property"], f.checkPayload, f.coded_checkPayload⟩]

theorem coded_found {r : Rule} (h : r ∈ Rule.builtin) : Coded [r.name] (r.found f config) := by
  unfold Rule.found
  split
  · exact f.coded_of_mem_builtin config h
  · exact nofun

/-- The blocks of the rules that are always there, in their order. -/
def ruleBlocks : List Block :=
  Rule.builtin.attach.map fun r => ⟨[r.1.name], r.1.found f config, f.coded_found config r.2⟩

/-- The codes of the blocks, in their order. -/
def blockCodes : List (List String) :=
  [["flow-class"], ["entry-method"], ["throw-in-entry"], ["step-call-graph"],
   ["literal-credentials"], ["unregistered-bubble"],
   ["unknown-property", "missing-property", "type-mismatch"], ["payload-property"],
   ["no-process-env-bulk"], ["max-complexity"], ["no-dynamic-code"], ["no-hardcoded-secret"],
   ["cron-schedule"]]

/-- **What the checks find is what stands in their blocks.** -/
theorem checks_eq : f.checks registry config =
    (f.checkBlocks registry config).flatMap (·.found) := by
  have hstructure : f.checkStructure config = f.checkFlowClass config ++
      (f.inClass (f.checkEntryMethod config) ++ f.inClass (f.checkEntryThrows config) ++
        f.inClass (f.checkStepCalls config)) := by
    unfold checkStructure inClass
    cases f.flowClass? <;> rfl
  simp only [checks, checkBlocks, hstructure, List.flatMap_cons, List.flatMap_nil,
    List.append_assoc, List.append_nil]

/-- What rules find comes rule by rule. -/
theorem runRules_eq (rules : List Rule) :
    runRules rules f config = rules.flatMap (·.found f config) := by
  induction rules with
  | nil => rfl
  | cons r rules ih =>
    rw [List.flatMap_cons, ← ih, runRules, runRules, List.filter_cons, Rule.found]
    split
    · rw [List.flatMap_cons]
    · rfl

end Flow

/-! ### Reading order -/

/-- Diagnostics that all have a place, and none a place in front of that of an earlier one. -/
structure InReadingOrder (ds : List Diagnostic) : Prop where
  placed : ∀ d ∈ ds, d.location.isSome
  ordered : ds.Pairwise fun d e => ∀ l ∈ d.location, ∀ m ∈ e.location, l.le m

theorem InReadingOrder.nil : InReadingOrder [] := ⟨nofun, .nil⟩

theorem InReadingOrder.getD_map {α : Type} {o : Option α} {g : α → List Diagnostic}
    (h : ∀ x ∈ o, InReadingOrder (g x)) : InReadingOrder ((o.map g).getD []) := by
  cases o with
  | none => exact .nil
  | some x => exact h x rfl

/-- The codes of the checks and rules that report in reading order. -/
def orderedCodes : List String :=
  ["throw-in-entry", "step-call-graph", "unregistered-bubble", "no-process-env-bulk",
   "no-dynamic-code", "no-hardcoded-secret"]

namespace Flow

variable {f : Flow} {s : Source} {registry : Registry} {config : Config} {c : FlowClass}

/-- **What is found at nodes in their order is in reading order.** -/
theorem inReadingOrder_filterMap (f : Flow) {α : Type} {xs : List α} {node : α → Tree}
    {g : α → Option Diagnostic} (hxs : xs.Pairwise fun x y => (node x).start ≤ (node y).start)
    (hg : ∀ x, ∀ d ∈ g x, d.location = some (f.source.startOf (node x))) :
    InReadingOrder (xs.filterMap g) := by
  constructor
  case placed =>
    intro d hd
    obtain ⟨x, -, hx⟩ := List.mem_filterMap.1 hd
    rw [hg x d hx]
    rfl
  case ordered =>
    refine hxs.filterMap g ?_
    intro x y hle d hd e he l hl m hm
    rw [hg x d hd] at hl
    rw [hg y e he] at hm
    obtain rfl := Option.some.inj hl
    obtain rfl := Option.some.inj hm
    exact locationOf_mono f.source.text hle

/-- The same where something is found at every node. -/
theorem inReadingOrder_map (f : Flow) {α : Type} {xs : List α} {node : α → Tree}
    (finding : α → Finding) (hxs : xs.Pairwise fun x y => (node x).start ≤ (node y).start) :
    InReadingOrder (xs.map fun x => f.diagnosticAt (node x) (finding x)) := by
  rw [← List.filterMap_eq_map]
  refine f.inReadingOrder_filterMap hxs ?_
  intro x d hd
  obtain rfl := Option.some.inj hd
  rfl

/-! ### Checks -/

/-- **Bubbles are found in the order in which they are constructed.** -/
theorem pairwise_constructions (hlaid : LaidFrom s.root.start s.root.children s.root.stop) :
    (Flow.of s registry config).constructions.Pairwise fun c d => c.node.start ≤ d.node.start := by
  have hreceived : (received .newExpression s.root).Pairwise fun x y => x.1.start ≤ y.1.start :=
    (Tree.pairwise_start_walkWith hlaid receiver _ none).filter _
  have hnode : ∀ x : Tree × Option Tree,
      ∀ c ∈ constructionOf? s (importsOf s) registry config x.1 x.2, c.node = x.1 := by
    intro x c hc
    obtain ⟨_, -, hc⟩ := Option.bind_eq_some_iff.1 hc
    obtain ⟨-, -, hc⟩ := Option.bind_eq_some_iff.1 hc
    obtain rfl := Option.some.inj hc
    rfl
  refine hreceived.filterMap _ ?_
  intro x y hle c hc d hd
  rw [hnode x c hc, hnode y d hd]
  exact hle

theorem inReadingOrder_checkRegistered
    (hlaid : LaidFrom s.root.start s.root.children s.root.stop) (registry' : Registry) :
    InReadingOrder ((Flow.of s registry config).checkRegistered registry') :=
  inReadingOrder_map _ _ ((pairwise_constructions hlaid).filter _)

theorem inReadingOrder_checkEntryThrows
    (hlaid : LaidFrom s.root.start s.root.children s.root.stop)
    (hc : (Flow.of s registry config).flowClass? = some c) :
    InReadingOrder (f.checkEntryThrows config c) := by
  refine .getD_map ?_
  intro m hm
  rw [checkThrows]
  refine f.inReadingOrder_map _ ?_
  cases hbody : m.body with
  | none => exact .nil
  | some body =>
    have hbelow := laidFrom_of_body hlaid hc (List.mem_of_find?_eq_some hm) hbody
    change (ownThrows body).Pairwise _
    rw [ownThrows_eq]
    exact (Tree.pairwise_start_walkBelow hbelow throwVisit).filter _

theorem inReadingOrder_checkStepCalls
    (hlaid : LaidFrom s.root.start s.root.children s.root.stop)
    (hc : (Flow.of s registry config).flowClass? = some c) :
    InReadingOrder (f.checkStepCalls config c) := by
  rw [checkStepCalls_eq]
  exact f.inReadingOrder_map _ ((pairwise_foundCalls hlaid hc).sublist (firstPerKey_sublist _))

/-! ### Rules -/

theorem inReadingOrder_checkEnvironment
    (hlaid : LaidFrom f.source.root.start f.source.root.children f.source.root.stop) :
    InReadingOrder f.checkEnvironment :=
  f.inReadingOrder_map _ ((Tree.pairwise_start_walkWith hlaid usedSingly _ false).filter _)

theorem inReadingOrder_checkDynamicCode
    (hlaid : LaidFrom f.source.root.start f.source.root.children f.source.root.stop) :
    InReadingOrder f.checkDynamicCode := by
  refine f.inReadingOrder_filterMap (Tree.pairwise_start_nodes hlaid) ?_
  intro t d hd
  obtain ⟨name, -, rfl⟩ := Option.map_eq_some_iff.1 hd
  rfl

theorem inReadingOrder_checkSecrets
    (hlaid : LaidFrom f.source.root.start f.source.root.children f.source.root.stop) :
    InReadingOrder f.checkSecrets := by
  have htexts := (Tree.pairwise_start_walk hlaid fun t =>
    if beginsIn f.credentialSpans t then .skip
    else if isText t then .keep
    else .enter).filter isText
  refine f.inReadingOrder_filterMap htexts ?_
  intro t d hd
  obtain ⟨provider, -, rfl⟩ := Option.map_eq_some_iff.1 hd
  rfl

/-- The rules that are always there report in reading order, if their codes are among these. -/
theorem inReadingOrder_found
    (hlaid : LaidFrom f.source.root.start f.source.root.children f.source.root.stop) {r : Rule}
    (hr : r ∈ Rule.builtin) (hname : r.name ∈ orderedCodes) :
    InReadingOrder (r.found f config) := by
  unfold Rule.found
  split
  · simp only [Rule.builtin, List.mem_cons, List.not_mem_nil, or_false] at hr
    rcases hr with rfl | rfl | rfl | rfl | rfl
    · exact inReadingOrder_checkEnvironment hlaid
    · exact absurd hname (by decide)
    · exact inReadingOrder_checkDynamicCode hlaid
    · exact inReadingOrder_checkSecrets hlaid
    · exact absurd hname (by decide)
  · exact .nil

/-- The checks report in reading order, if their codes are among these. -/
theorem inReadingOrder_of_mem_checkBlocks
    (hlaid : LaidFrom s.root.start s.root.children s.root.stop) {b : Block}
    (hb : b ∈ (Flow.of s registry config).checkBlocks registry config)
    (hcodes : ∃ code ∈ orderedCodes, b.codes = [code]) : InReadingOrder b.found := by
  simp only [checkBlocks, List.mem_cons, List.not_mem_nil, or_false] at hb
  rcases hb with rfl | rfl | rfl | rfl | rfl | rfl | rfl | rfl
  case inr.inr.inl => exact .getD_map fun c hc => inReadingOrder_checkEntryThrows hlaid hc
  case inr.inr.inr.inl => exact .getD_map fun c hc => inReadingOrder_checkStepCalls hlaid hc
  case inr.inr.inr.inr.inr.inl => exact inReadingOrder_checkRegistered hlaid registry
  -- The other checks have other codes.
  all_goals simp [orderedCodes, parameterCodes] at hcodes

end Flow

/-! ### Verdicts -/

namespace Analyzer

variable {a : Analyzer} {text : String} {s : Source}

/-- The blocks of all that an analysis finds without the rules of the host. -/
def blocks (a : Analyzer) (s : Source) : List Block :=
  (a.flow s).checkBlocks a.registry a.config ++ (a.flow s).ruleBlocks a.config

theorem flatMap_blocks (a : Analyzer) (s : Source) : (a.blocks s).flatMap (·.found) =
    (a.flow s).checks a.registry a.config ++
      Rule.builtin.flatMap (·.found (a.flow s) a.config) := by
  rw [blocks, List.flatMap_append, ← Flow.checks_eq]
  rfl

theorem inReadingOrder_of_mem_blocks (hs : Source.parse text = .ok s) {b : Block}
    (hb : b ∈ a.blocks s) (hcodes : ∃ code ∈ orderedCodes, b.codes = [code]) :
    InReadingOrder b.found := by
  have hlaid := (rooted_of_parse hs).2.2.laid
  rcases List.mem_append.1 hb with hb | hb
  · exact Flow.inReadingOrder_of_mem_checkBlocks hlaid hb hcodes
  · obtain ⟨r, -, rfl⟩ := List.mem_map.1 hb
    obtain ⟨code, hcode, heq⟩ := hcodes
    exact Flow.inReadingOrder_found hlaid r.2 ((List.singleton_inj.1 heq) ▸ hcode)

/-- **The diagnostics come in blocks**: those of the checks, of the rules that are always there, and
of the rules of the host, each in the order in which they run.  The checks that go through the
source report in reading order. -/
theorem validate_eq_blocks (hs : Source.parse text = .ok s) :
    (a.validate text).diagnostics = (a.blocks s).flatMap (·.found) ++
        a.hostRules.flatMap (·.found (a.flow s) a.config) ∧
      (a.blocks s).map (·.codes) = Flow.blockCodes ∧
      ∀ b ∈ a.blocks s, (∃ code ∈ orderedCodes, b.codes = [code]) → InReadingOrder b.found := by
  have hdiagnostics : (a.validate text).diagnostics = (a.blocks s).flatMap (·.found) ++
      a.hostRules.flatMap (·.found (a.flow s) a.config) := by
    rw [validate_of_parse hs, flatMap_blocks, List.append_assoc, ← List.flatMap_append, ← rules,
      ← Flow.runRules_eq]
    rfl
  refine ⟨hdiagnostics, rfl, ?_⟩
  intro b hb hcodes
  exact inReadingOrder_of_mem_blocks hs hb hcodes

/-- A source that makes code of texts twice and has no flow class. -/
def evaluatingText : String := "eval(1);eval(2)"

/-- An analysis with a rule of the host. -/
def hostAnalyzer : Analyzer := ⟨.ofList [], .standard, [.contains "eval" "no"]⟩

theorem exists_parse_evaluatingText : ∃ s, Source.parse evaluatingText = .ok s ∧
    (hostAnalyzer.check s).diagnostics.map (·.code) =
      ["flow-class", "no-dynamic-code", "no-dynamic-code", "host-contains"] := by
  have hread : (Source.parse evaluatingText).toOption.any fun s =>
      decide ((hostAnalyzer.check s).diagnostics.map (·.code) =
        ["flow-class", "no-dynamic-code", "no-dynamic-code", "host-contains"]) := by
    decide +kernel
  obtain ⟨s, hs, hcodes⟩ := Option.any_eq_true _ _ |>.1 hread
  exact ⟨s, eq_ok_of_toOption hs, of_decide_eq_true hcodes⟩

theorem validate_eq_blocks_evaluatingText : ∃ s, Source.parse evaluatingText = .ok s ∧
    (hostAnalyzer.validate evaluatingText).diagnostics.map (·.code) =
      ["flow-class", "no-dynamic-code", "no-dynamic-code", "host-contains"] ∧
    (hostAnalyzer.validate evaluatingText).diagnostics =
      (hostAnalyzer.blocks s).flatMap (·.found) ++
        hostAnalyzer.hostRules.flatMap (·.found (hostAnalyzer.flow s) hostAnalyzer.config) ∧
    (hostAnalyzer.blocks s).map (·.codes) = Flow.blockCodes ∧
    ∀ b ∈ hostAnalyzer.blocks s, (∃ code ∈ orderedCodes, b.codes = [code]) →
      InReadingOrder b.found := by
  obtain ⟨s, hs, hcodes⟩ := exists_parse_evaluatingText
  exact ⟨s, hs, by rw [validate_of_parse hs, hcodes], validate_eq_blocks hs⟩

end Analyzer

end FlowAnalysis
