import FlowAnalysis.Proofs.Blocks

/-!
# Rules that are left out

A configuration names rules that are to be left out.  Neither the checks nor the rules read these
names, so an analysis that leaves rules out finds what it would find anyway, without what these
rules find; and since a rule reports under its own name, no check is silenced by a name.

## Main definitions

* `Config.disabling`, `Analyzer.disabling` — the same, with other rules left out.
* `Rule.OwnCode`, `Rule.IgnoresDisabled` — what is expected of a rule of the host.
* `Analyzer.attributed` — all that can be found, each with the rule that finds it.

## Main results

* `Flow.coded_checks` — the codes under which the checks report.
* `Analyzer.diagnostics_disabling` — what is found with some rules left out.
* `Analyzer.diagnostics_disabling_eq_filter` — the same by codes alone, if no rule of the host is
  named like a code of a check.
* `Analyzer.validate_disabling` — **leaving out rules leaves out what they find, and nothing else.**
-/

namespace FlowAnalysis

open Syntax

/-! ### Leaving out rules -/

/-- The configuration with the rules of some names left out, and no others. -/
def Config.disabling (config : Config) (names : List String) : Config :=
  { config with lint := { config.lint with disabled := names } }

/-- The analysis with the rules of some names left out, and no others. -/
def Analyzer.disabling (a : Analyzer) (names : List String) : Analyzer :=
  { a with config := a.config.disabling names }

namespace Rule

/-- A rule reports under its own name only. -/
def OwnCode (r : Rule) : Prop := ∀ (f : Flow) (config : Config), Coded [r.name] (r.check f config)

/-- A rule does not look at which rules are left out. -/
def IgnoresDisabled (r : Rule) : Prop := ∀ (f : Flow) (config : Config) (names : List String),
  r.check f (config.disabling names) = r.check f config

variable {r : Rule}

theorem ownCode_of_mem_builtin (h : r ∈ builtin) : r.OwnCode :=
  fun f config => f.coded_of_mem_builtin config h

theorem ignoresDisabled_of_mem_builtin (h : r ∈ builtin) : r.IgnoresDisabled := by
  simp only [builtin, List.mem_cons, List.not_mem_nil, or_false] at h
  rcases h with rfl | rfl | rfl | rfl | rfl <;> exact fun f config names => rfl

theorem ownCode_contains (part message : String) : (contains part message).OwnCode := by
  intro f config d hd
  simp only [contains] at hd
  split at hd
  · rw [List.mem_singleton.1 hd]
    exact List.mem_singleton_self _
  · simp at hd

theorem ignoresDisabled_contains (part message : String) :
    (contains part message).IgnoresDisabled := fun _ _ _ => rfl

/-- What a rule finds, unless its name is among some. -/
theorem found_disabling (h : r.IgnoresDisabled) (f : Flow) (config : Config)
    (names : List String) : r.found f (config.disabling names) =
      if r.name ∈ names then [] else r.check f config := by
  rw [found, h]
  by_cases hname : r.name ∈ names <;> simp [Config.disabling, LintConfig.isEnabled, hname]

end Rule

/-! ### Checks -/

/-- The codes under which the checks report, the rules left out. -/
def checkCodes : List String :=
  ["flow-class", "entry-method", "throw-in-entry", "step-call-graph", "literal-credentials",
   "unregistered-bubble", "unknown-property", "missing-property", "type-mismatch",
   "payload-property"]

theorem Flow.coded_checks (f : Flow) (registry : Registry) (config : Config) :
    Coded checkCodes (f.checks registry config) := by
  intro d hd
  rw [checks_eq] at hd
  obtain ⟨b, hb, hd⟩ := List.mem_flatMap.1 hd
  have hcodes : (f.checkBlocks registry config).flatMap (·.codes) = checkCodes := rfl
  exact hcodes ▸ List.mem_flatMap.2 ⟨b, hb, b.coded d hd⟩

/-! ### Attribution -/

namespace Analyzer

variable {a : Analyzer} {text : String} {s : Source}

/-- All that an analysis can find, in its order, each with the name of the rule that finds it, or
without one if it is found by a check. -/
def attributed (a : Analyzer) (s : Source) : List (Option String × Diagnostic) :=
  ((a.flow s).checks a.registry a.config).map (none, ·) ++
    a.rules.flatMap fun r => (r.check (a.flow s) a.config).map (some r.name, ·)

/-- No check reads which rules are left out. -/
theorem check_disabling (a : Analyzer) (names : List String) (s : Source) :
    ((a.disabling names).check s).diagnostics = (a.flow s).checks a.registry a.config ++
      a.rules.flatMap (·.found (a.flow s) (a.config.disabling names)) := by
  rw [← Flow.runRules_eq]
  rfl

theorem ignoresDisabled_of_mem_rules (h : ∀ r ∈ a.hostRules, r.IgnoresDisabled) :
    ∀ r ∈ a.rules, r.IgnoresDisabled := fun r hr =>
  (List.mem_append.1 hr).elim Rule.ignoresDisabled_of_mem_builtin (h r)

/-- Whether something that can be found is found with the rules of some names left out. -/
def isKept (names : List String) (x : Option String × Diagnostic) : Bool :=
  x.1.all fun name => name ∉ names

/-- **What is found with some rules left out**: what can be found, without what these rules find. -/
theorem diagnostics_disabling (hs : Source.parse text = .ok s)
    (hignores : ∀ r ∈ a.hostRules, r.IgnoresDisabled) (names : List String) :
    ((a.disabling names).validate text).diagnostics =
      ((a.attributed s).filter (isKept names)).map (·.2) := by
  have hchecks : (((a.flow s).checks a.registry a.config).map (none, ·)).filter (isKept names) =
      ((a.flow s).checks a.registry a.config).map ((none : Option String), ·) := by
    rw [List.filter_eq_self]
    intro x hx
    obtain ⟨d, -, rfl⟩ := List.mem_map.1 hx
    rfl
  have hrules : ∀ r ∈ a.rules, r.found (a.flow s) (a.config.disabling names) =
      (((r.check (a.flow s) a.config).map (some r.name, ·)).filter (isKept names)).map (·.2) := by
    intro r hr
    rw [Rule.found_disabling (ignoresDisabled_of_mem_rules hignores r hr)]
    -- All that a rule finds bears its name.
    rw [List.filter_map, List.map_map]
    by_cases hname : r.name ∈ names <;> simp [Function.comp_def, isKept, hname]
  rw [validate_of_parse hs, check_disabling, attributed, List.filter_append, List.map_append,
    hchecks, List.filter_flatMap, List.map_flatMap, List.map_map]
  congr 1
  · simp [Function.comp_def]
  · exact List.flatMap_congr hrules

/-- What a rule finds bears its name as code, what a check finds one of the codes of the checks. -/
theorem code_of_mem_attributed (hcodes : ∀ r ∈ a.hostRules, r.OwnCode)
    {x : Option String × Diagnostic} (hx : x ∈ a.attributed s) :
    x.1 = some x.2.code ∨ x.1 = none ∧ x.2.code ∈ checkCodes := by
  rcases List.mem_append.1 hx with hx | hx
  · obtain ⟨d, hd, rfl⟩ := List.mem_map.1 hx
    exact .inr ⟨rfl, (a.flow s).coded_checks a.registry a.config d hd⟩
  · obtain ⟨r, hr, hx⟩ := List.mem_flatMap.1 hx
    obtain ⟨d, hd, rfl⟩ := List.mem_map.1 hx
    have hown : r.OwnCode :=
      (List.mem_append.1 hr).elim Rule.ownCode_of_mem_builtin (hcodes r)
    exact .inl (congrArg some (List.mem_singleton.1 (hown _ _ d hd)).symm)

theorem filter_isKept_nil (a : Analyzer) (s : Source) :
    (a.attributed s).filter (isKept []) = a.attributed s := by
  rw [List.filter_eq_self]
  intro x _
  cases hx : x.1 <;> simp [isKept, hx]

/-- **By codes alone**: if no rule of the host is named like a code of a check, leaving out rules
leaves out what bears their names. -/
theorem diagnostics_disabling_eq_filter (hs : Source.parse text = .ok s)
    (hcodes : ∀ r ∈ a.hostRules, r.OwnCode) (hignores : ∀ r ∈ a.hostRules, r.IgnoresDisabled)
    (hnames : ∀ r ∈ a.hostRules, r.name ∉ checkCodes) (names : List String) :
    ((a.disabling names).validate text).diagnostics =
      ((a.disabling []).validate text).diagnostics.filter fun d =>
        d.code ∈ checkCodes ∨ d.code ∉ names := by
  have hother : ∀ r ∈ a.rules, r.name ∉ checkCodes := by
    intro r hr
    rcases List.mem_append.1 hr with hr | hr
    · have hbuiltin : ∀ name ∈ Rule.builtin.map (·.name), name ∉ checkCodes := by decide
      exact hbuiltin r.name (List.mem_map_of_mem hr)
    · exact hnames r hr
  rw [diagnostics_disabling hs hignores, diagnostics_disabling hs hignores, filter_isKept_nil,
    List.filter_map]
  refine congrArg _ (List.filter_congr ?_)
  intro x hx
  rw [Function.comp_apply, isKept]
  rcases code_of_mem_attributed hcodes hx with htag | ⟨htag, hcode⟩
  · have hrule : x.2.code ∉ checkCodes := by
      rcases List.mem_append.1 hx with hx | hx
      · obtain ⟨d, -, rfl⟩ := List.mem_map.1 hx
        simp at htag
      · obtain ⟨r, hr, hx⟩ := List.mem_flatMap.1 hx
        obtain ⟨d, -, rfl⟩ := List.mem_map.1 hx
        exact Option.some.inj htag ▸ hother r hr
    simp [htag, hrule]
  · simp [htag, hcode]

/-- **Leaving out rules leaves out what they find, and nothing else**: of all that is found with no
rule left out, each with the rule that finds it, exactly what is found by a rule of one of the names
is lacking.  What the checks find stays, whatever the names are. -/
theorem validate_disabling (hs : Source.parse text = .ok s)
    (hcodes : ∀ r ∈ a.hostRules, r.OwnCode) (hignores : ∀ r ∈ a.hostRules, r.IgnoresDisabled)
    (names : List String) :
    ((a.disabling []).validate text).diagnostics = (a.attributed s).map (·.2) ∧
      ((a.disabling names).validate text).diagnostics =
        ((a.attributed s).filter (isKept names)).map (·.2) ∧
      ∀ x ∈ a.attributed s, x.1 = some x.2.code ∨ x.1 = none ∧ x.2.code ∈ checkCodes := by
  have hnone := diagnostics_disabling hs hignores []
  rw [filter_isKept_nil] at hnone
  refine ⟨hnone, diagnostics_disabling hs hignores names, ?_⟩
  intro x hx
  exact code_of_mem_attributed hcodes hx

/-- One rule is left out, and a name that is that of a check makes no difference. -/
theorem validate_disabling_evaluatingText :
    let names := ["no-dynamic-code", "flow-class"]
    ((hostAnalyzer.disabling names).validate evaluatingText).diagnostics.map (·.code) =
      ["flow-class", "host-contains"] ∧
    ∃ s, (Source.parse evaluatingText = .ok s ∧ (∀ r ∈ hostAnalyzer.hostRules, r.OwnCode) ∧
        ∀ r ∈ hostAnalyzer.hostRules, r.IgnoresDisabled) ∧
      ((hostAnalyzer.disabling []).validate evaluatingText).diagnostics =
        (hostAnalyzer.attributed s).map (·.2) ∧
      ((hostAnalyzer.disabling names).validate evaluatingText).diagnostics =
        ((hostAnalyzer.attributed s).filter (isKept names)).map (·.2) ∧
      ∀ x ∈ hostAnalyzer.attributed s,
        x.1 = some x.2.code ∨ x.1 = none ∧ x.2.code ∈ checkCodes := by
  intro names
  obtain ⟨s, hs, -⟩ := exists_parse_evaluatingText
  have hcodes : ∀ r ∈ hostAnalyzer.hostRules, r.OwnCode := fun r hr =>
    List.mem_singleton.1 hr ▸ Rule.ownCode_contains "eval" "no"
  have hignores : ∀ r ∈ hostAnalyzer.hostRules, r.IgnoresDisabled := fun r hr =>
    List.mem_singleton.1 hr ▸ Rule.ignoresDisabled_contains "eval" "no"
  exact ⟨by decide +kernel, s, ⟨hs, hcodes, hignores⟩, validate_disabling hs hcodes hignores names⟩

end Analyzer

end FlowAnalysis
