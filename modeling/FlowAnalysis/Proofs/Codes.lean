import FlowAnalysis.Analysis
import FlowAnalysis.Proofs.Conformance

/-!
# The codes of diagnostics

Every check reports under codes of its own.  So the diagnostics with a code are those of the check
that reports under it, whatever else is found.

## Main definitions

* `Coded` — diagnostics with no other codes than some.
* `Rule.Avoids` — a rule that reports nothing under a code.

## Main results

* `FieldSchema.coded_check`, `Contract.coded_check` — the codes of faults in parameters.
* `Analyzer.filter_entryMethod`, `Analyzer.filter_throwInEntry`, `Analyzer.filter_stepCallGraph` —
  **the diagnostics of one check among all of them.**
-/

namespace FlowAnalysis

open Syntax

/-- Diagnostics that have no other codes than some. -/
def Coded (codes : List String) (ds : List Diagnostic) : Prop := ∀ d ∈ ds, d.code ∈ codes

namespace Coded

variable {codes : List String} {ds : List Diagnostic}

theorem filter_eq_nil (code : String) (h : Coded codes ds) (hcode : code ∉ codes) :
    ds.filter (·.code = code) = [] := by
  rw [List.filter_eq_nil_iff]
  intro d hd heq
  exact hcode (of_decide_eq_true heq ▸ h d hd)

theorem filter_eq_self {code : String} (h : Coded [code] ds) : ds.filter (·.code = code) = ds := by
  rw [List.filter_eq_self]
  intro d hd
  simpa using h d hd

theorem getD_map {α : Type} {o : Option α} {g : α → List Diagnostic}
    (h : ∀ x ∈ o, Coded codes (g x)) : Coded codes ((o.map g).getD []) := by
  cases o with
  | none => exact nofun
  | some x => exact h x rfl

end Coded

/-! ### Parameters -/

/-- The codes under which faults in parameters are reported. -/
def parameterCodes : List String := ["unknown-property", "missing-property", "type-mismatch"]

/-- Findings that are reported under the codes of faults in parameters. -/
def InParameters (found : List Located) : Prop := ∀ x ∈ found, x.1.code ∈ parameterCodes

namespace InParameters

theorem nil : InParameters [] := nofun

theorem mismatch (p : Place) (actual expected : String) (t : Tree) :
    InParameters [p.mismatch actual expected t] := by
  simp [InParameters, Place.mismatch, Finding.code, parameterCodes]

theorem missing (p : Place) (key : String) (t : Tree) :
    (p.missing key t).1.code ∈ parameterCodes := by
  simp [Place.missing, Finding.code, parameterCodes]

end InParameters

/-- The entries of an object are reported under these codes if the values of properties are. -/
theorem ObjectSchema.inParameters_check {schema : ObjectSchema}
    (h : ∀ e ∈ schema.properties, ∀ p t a, InParameters (FieldSchema.check p t a e.2)) (p : Place)
    (discriminator : Option String) (anchor : Tree) (entries : List Entry) :
    InParameters (schema.check p discriminator anchor entries) := by
  obtain ⟨name, properties, required, additional⟩ := schema
  intro x hx
  rw [ObjectSchema.check, List.mem_append, List.mem_flatMap] at hx
  rcases hx with ⟨e, -, hx⟩ | hx
  · cases e with
    | spread t => simp at hx
    | other t => simp at hx
    | property key keyNode value valueNode =>
      simp only [FieldSchema.checkNamed_eq] at hx
      split at hx
      · simp at hx
      · cases hs : Keyed.get? properties key with
        | some s =>
          rw [hs] at hx
          exact h _ (Keyed.mem_of_get? hs) _ _ _ x hx
        | none =>
          rw [hs] at hx
          simp only [Option.map_none] at hx
          split at hx
          · simp at hx
          · simp only [List.mem_singleton] at hx
            simp [hx, Finding.code, parameterCodes]
  · split at hx
    · simp at hx
    · obtain ⟨key, -, rfl⟩ := List.mem_map.1 hx
      exact InParameters.missing p key anchor

theorem FieldSchema.inParameters_check (s : FieldSchema) (p : Place) (t : Tree) (a : Argument) :
    InParameters (FieldSchema.check p t a s) := by
  induction s using FieldSchema.induction generalizing p t a with
  | any =>
    rw [FieldSchema.check]
    exact .nil
  | array items ih =>
    cases a <;> simp only [FieldSchema.check]
    case array elements =>
      intro x hx
      simp only [List.mem_flatten, List.mem_mapIdx] at hx
      obtain ⟨_, ⟨i, hi, rfl⟩, hx⟩ := hx
      exact ih _ _ _ x hx
    all_goals first | exact .nil | exact .mismatch _ _ _ _
  | object schema ih =>
    cases a <;> simp only [FieldSchema.check]
    case object entries =>
      exact ObjectSchema.inParameters_check (fun e he p t a => ih e he p t a) _ _ _ _
    all_goals first | exact .nil | exact .mismatch _ _ _ _
  | string values =>
    cases a <;> simp only [FieldSchema.check]
    case string text =>
      split
      · split
        · exact .nil
        · exact .mismatch _ _ _ _
      · exact .nil
    all_goals first | exact .nil | exact .mismatch _ _ _ _
  | number | boolean =>
    cases a <;> simp only [FieldSchema.check]
    all_goals first | exact .nil | exact .mismatch _ _ _ _
  | literal value | oneOf variants =>
    cases a <;> simp only [FieldSchema.check]
    all_goals first
      | exact .nil
      | split
        · exact .nil
        · exact .mismatch _ _ _ _

theorem Contract.inParameters_check (c : Contract) (p : Place) (anchor : Tree)
    (entries : List Entry) : InParameters (c.check p anchor entries) := by
  have hobject : ∀ (schema : ObjectSchema) p discriminator,
      InParameters (schema.check p discriminator anchor entries) := fun schema p discriminator =>
    schema.inParameters_check (fun e _ => e.2.inParameters_check) p discriminator anchor entries
  cases c with
  | object schema => exact hobject schema p none
  | union discriminator variants =>
    rw [Contract.check, checkUnion]
    split
    · split
      · exact hobject _ _ _
      · exact .mismatch _ _ _ _
    · split
      · exact .mismatch _ _ _ _
      · exact .nil
    · exact .nil
    · split
      · exact .nil
      · simpa [InParameters] using InParameters.missing p discriminator anchor

/-! ### Checks -/

namespace Flow

variable (f : Flow) (config : Config)

theorem coded_checkFlowClass : Coded ["flow-class"] (f.checkFlowClass config) := by
  unfold checkFlowClass Coded
  split <;> simp [diagnosticAt, Diagnostic.code, Finding.code]

theorem coded_checkEntryMethod (c : FlowClass) :
    Coded ["entry-method"] (f.checkEntryMethod config c) := by
  simp only [checkEntryMethod, Coded]
  split
  · simp [diagnosticAt, Diagnostic.code, Finding.code]
  · split <;> simp [diagnosticAt, Diagnostic.code, Finding.code]

theorem coded_checkThrows (entry : Method) :
    Coded ["throw-in-entry"] (f.checkThrows config entry) := by
  intro d hd
  obtain ⟨t, -, rfl⟩ := List.mem_map.1 hd
  exact List.mem_singleton_self _

theorem coded_checkStepCalls (c : FlowClass) :
    Coded ["step-call-graph"] (f.checkStepCalls config c) := by
  intro d hd
  obtain ⟨⟨⟨caller, callee⟩, t⟩, -, rfl⟩ := List.mem_map.1 hd
  exact List.mem_singleton_self _

theorem coded_checkCredentials : Coded ["literal-credentials"] f.checkCredentials := by
  intro d hd
  obtain ⟨c, -, hd⟩ := List.mem_filterMap.1 hd
  split at hd
  · split at hd
    · obtain rfl := Option.some.inj hd
      exact List.mem_singleton_self _
    · simp at hd
  · simp at hd

theorem coded_checkRegistered (registry : Registry) :
    Coded ["unregistered-bubble"] (f.checkRegistered registry) := by
  intro d hd
  obtain ⟨c, -, rfl⟩ := List.mem_map.1 hd
  exact List.mem_singleton_self _

theorem coded_checkParameters (registry : Registry) :
    Coded parameterCodes (f.checkParameters registry) := by
  intro d hd
  obtain ⟨x, hx, rfl⟩ := List.mem_map.1 hd
  obtain ⟨c, -, hx⟩ := List.mem_flatMap.1 hx
  unfold checkConstruction at hx
  split at hx
  · exact Contract.inParameters_check _ _ _ _ x hx
  · simp at hx

theorem coded_checkPayload : Coded ["payload-property"] f.checkPayload := by
  unfold checkPayload
  split
  · split
    · exact nofun
    · intro d hd
      obtain ⟨e, -, rfl⟩ := List.mem_map.1 hd
      exact List.mem_singleton_self _
  · exact nofun

/-! ### Rules -/

theorem coded_checkEnvironment : Coded ["no-process-env-bulk"] f.checkEnvironment := by
  intro d hd
  obtain ⟨x, -, rfl⟩ := List.mem_map.1 hd
  exact List.mem_singleton_self _

theorem coded_checkComplexity : Coded ["max-complexity"] (f.checkComplexity config) := by
  intro d hd
  obtain ⟨m, -, hd⟩ := List.mem_filterMap.1 hd
  obtain ⟨body, -, hd⟩ := Option.bind_eq_some_iff.1 hd
  dsimp only at hd
  split at hd
  · obtain rfl := Option.some.inj hd
    exact List.mem_singleton_self _
  · simp at hd

theorem coded_checkDynamicCode : Coded ["no-dynamic-code"] f.checkDynamicCode := by
  intro d hd
  obtain ⟨t, -, hd⟩ := List.mem_filterMap.1 hd
  obtain ⟨name, -, rfl⟩ := Option.map_eq_some_iff.1 hd
  exact List.mem_singleton_self _

theorem coded_checkSecrets : Coded ["no-hardcoded-secret"] f.checkSecrets := by
  intro d hd
  obtain ⟨t, -, hd⟩ := List.mem_filterMap.1 hd
  obtain ⟨provider, -, rfl⟩ := Option.map_eq_some_iff.1 hd
  exact List.mem_singleton_self _

theorem coded_checkSchedule : Coded ["cron-schedule"] f.checkSchedule := by
  have hfindings : ∀ schedule, ∀ x ∈ scheduleFindings schedule, x.code = "cron-schedule" := by
    intro schedule x hx
    simp only [scheduleFindings] at hx
    split at hx
    · obtain rfl := List.mem_singleton.1 hx
      rfl
    · obtain ⟨w, -, rfl⟩ := List.mem_map.1 hx
      rfl
  unfold checkSchedule
  split
  · exact nofun
  · intro d hd
    obtain ⟨x, hx, rfl⟩ := List.mem_map.1 hd
    rw [List.mem_singleton]
    split at hx
    · exact hfindings _ x hx
    · split at hx
      · obtain rfl := List.mem_singleton.1 hx
        rfl
      · simp at hx

/-- The rules that are always there report each under its own name. -/
theorem coded_of_mem_builtin {r : Rule} (h : r ∈ Rule.builtin) :
    Coded [r.name] (r.check f config) := by
  simp only [Rule.builtin, List.mem_cons, List.not_mem_nil, or_false] at h
  rcases h with rfl | rfl | rfl | rfl | rfl
  · exact f.coded_checkEnvironment
  · exact f.coded_checkComplexity config
  · exact f.coded_checkDynamicCode
  · exact f.coded_checkSecrets
  · exact f.coded_checkSchedule

end Flow

/-- A rule never reports anything under a code. -/
def Rule.Avoids (r : Rule) (code : String) : Prop :=
  ∀ (f : Flow) (config : Config), ∀ d ∈ r.check f config, d.code ≠ code

theorem Rule.avoids_of_mem_builtin {r : Rule} (h : r ∈ builtin) {code : String}
    (hcode : code ∉ builtin.map (·.name)) : r.Avoids code := by
  intro f config d hd heq
  have hname := List.mem_singleton.1 (f.coded_of_mem_builtin config h d hd)
  exact hcode (heq ▸ hname ▸ List.mem_map_of_mem h)

/-! ### Verdicts -/

namespace Analyzer

variable {a : Analyzer} {text : String} {s : Source} {c : FlowClass} {code : String}

/-- The diagnostics of a text that follows the grammar are those of its source. -/
theorem validate_of_parse (hs : Source.parse text = .ok s) : a.validate text = a.check s := by
  unfold validate
  simp only [hs]

/-- The rules of an analysis report nothing under a code that is no name of a rule, if those of the
host do not. -/
theorem filter_runRules (hhost : ∀ r ∈ a.hostRules, r.Avoids code)
    (hcode : code ∉ Rule.builtin.map (·.name)) (f : Flow) :
    (runRules a.rules f a.config).filter (·.code = code) = [] := by
  rw [List.filter_eq_nil_iff]
  intro d hd heq
  obtain ⟨r, hr, hd⟩ := List.mem_flatMap.1 hd
  have havoids : r.Avoids code := (List.mem_append.1 (List.mem_of_mem_filter hr)).elim
    (Rule.avoids_of_mem_builtin · hcode) (hhost r)
  exact havoids f a.config d hd (of_decide_eq_true heq)

/-- The codes of everything that is found beside the structure of a flow. -/
def codesBesideStructure : List String :=
  ["literal-credentials", "unregistered-bubble"] ++ parameterCodes ++ ["payload-property"] ++
    Rule.builtin.map (·.name)

/-- Under a code of the structure only the structure is reported. -/
theorem filter_check (hhost : ∀ r ∈ a.hostRules, r.Avoids code)
    (hcode : code ∉ codesBesideStructure) :
    (a.check s).diagnostics.filter (·.code = code) =
      ((a.flow s).checkStructure a.config).filter (·.code = code) := by
  simp only [codesBesideStructure, List.mem_append, not_or] at hcode
  obtain ⟨⟨⟨hbubbles, hparameters⟩, hpayload⟩, hrules⟩ := hcode
  simp only [List.mem_cons, List.not_mem_nil, or_false, not_or] at hbubbles
  have hcredentials := (a.flow s).coded_checkCredentials.filter_eq_nil code (by simp [hbubbles])
  have hregistered :=
    ((a.flow s).coded_checkRegistered a.registry).filter_eq_nil code (by simp [hbubbles])
  have hfaults := ((a.flow s).coded_checkParameters a.registry).filter_eq_nil code hparameters
  have hreads := (a.flow s).coded_checkPayload.filter_eq_nil code hpayload
  have hstyle := filter_runRules hhost hrules (a.flow s)
  simp only [check, Flow.validate, List.filter_append, hcredentials, hregistered, hfaults, hreads,
    hstyle, List.append_nil]

/-- **The diagnostics of the entry method among all of them.** -/
theorem filter_entryMethod (hhost : ∀ r ∈ a.hostRules, r.Avoids "entry-method")
    (hc : (a.flow s).flowClass? = some c) :
    (a.check s).diagnostics.filter (·.code = "entry-method") =
      (a.flow s).checkEntryMethod a.config c := by
  have hclass := ((a.flow s).coded_checkFlowClass a.config).filter_eq_nil "entry-method"
    (by decide)
  have hentry := (a.flow s).coded_checkEntryMethod a.config c
  have hsteps := ((a.flow s).coded_checkStepCalls a.config c).filter_eq_nil "entry-method"
    (by decide)
  have hthrows : Coded ["throw-in-entry"]
      (((c.method? a.config.entryMethod).map ((a.flow s).checkThrows a.config)).getD []) :=
    .getD_map fun entry _ => (a.flow s).coded_checkThrows a.config entry
  rw [filter_check hhost (by decide), Flow.checkStructure, hc]
  have hnone := hthrows.filter_eq_nil "entry-method" (by decide)
  simp only [List.filter_append, hclass, hnone, hsteps, hentry.filter_eq_self, List.nil_append,
    List.append_nil]

/-- **The diagnostics of throw statements among all of them.** -/
theorem filter_throwInEntry (hhost : ∀ r ∈ a.hostRules, r.Avoids "throw-in-entry")
    (hc : (a.flow s).flowClass? = some c) :
    (a.check s).diagnostics.filter (·.code = "throw-in-entry") =
      ((c.method? a.config.entryMethod).map ((a.flow s).checkThrows a.config)).getD [] := by
  have hclass := ((a.flow s).coded_checkFlowClass a.config).filter_eq_nil "throw-in-entry"
    (by decide)
  have hentry := ((a.flow s).coded_checkEntryMethod a.config c).filter_eq_nil "throw-in-entry"
    (by decide)
  have hsteps := ((a.flow s).coded_checkStepCalls a.config c).filter_eq_nil "throw-in-entry"
    (by decide)
  have hthrows : Coded ["throw-in-entry"]
      (((c.method? a.config.entryMethod).map ((a.flow s).checkThrows a.config)).getD []) :=
    .getD_map fun entry _ => (a.flow s).coded_checkThrows a.config entry
  rw [filter_check hhost (by decide), Flow.checkStructure, hc]
  simp only [List.filter_append, hclass, hentry, hsteps, hthrows.filter_eq_self, List.nil_append,
    List.append_nil]

/-- **The diagnostics of calls between methods among all of them.** -/
theorem filter_stepCallGraph (hhost : ∀ r ∈ a.hostRules, r.Avoids "step-call-graph")
    (hc : (a.flow s).flowClass? = some c) :
    (a.check s).diagnostics.filter (·.code = "step-call-graph") =
      (a.flow s).checkStepCalls a.config c := by
  have hclass := ((a.flow s).coded_checkFlowClass a.config).filter_eq_nil "step-call-graph"
    (by decide)
  have hentry := ((a.flow s).coded_checkEntryMethod a.config c).filter_eq_nil "step-call-graph"
    (by decide)
  have hsteps := (a.flow s).coded_checkStepCalls a.config c
  have hthrows : Coded ["throw-in-entry"]
      (((c.method? a.config.entryMethod).map ((a.flow s).checkThrows a.config)).getD []) :=
    .getD_map fun entry _ => (a.flow s).coded_checkThrows a.config entry
  rw [filter_check hhost (by decide), Flow.checkStructure, hc]
  have hnone := hthrows.filter_eq_nil "step-call-graph" (by decide)
  simp only [List.filter_append, hclass, hentry, hnone, hsteps.filter_eq_self, List.nil_append]

end Analyzer

end FlowAnalysis
