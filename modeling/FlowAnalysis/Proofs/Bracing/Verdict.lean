import FlowAnalysis.Analysis
import FlowAnalysis.Proofs.Bracing.Records
import FlowAnalysis.Proofs.Bracing.Secrets
import FlowAnalysis.Proofs.Codes
import FlowAnalysis.Proofs.Trimming.Verdict

/-!
# Verdicts on normal forms

What is found in the normal form of a flow is found in the flow, and what is extracted from a valid
flow is extracted from its normal form, too.  This needs that the parser reads the blocks as blocks,
and that no promoted body stands inside a text that the analysis takes as it is written.

## Main results

* `Flow.Twins.thins_validate` — what is found in the normal form.
* `Analyzer.validate_normalize` — **the normal form of a flow is no worse than the flow.**
-/

namespace FlowAnalysis

open Syntax

/-! ### All checks -/

theorem Finding.Agrees.imp {quotes quotes' : Prop} {x' x : Finding} (h : Finding.Agrees quotes x' x)
    (hquotes : quotes' → quotes) : Finding.Agrees quotes' x' x := ⟨h.code, h.eq ∘ hquotes⟩

namespace Flow

/-- The nodes whose texts get into messages. -/
def cited (f : Flow) : List Tree := f.quoted ++ f.suspects

namespace Twins

variable {s' s : Source} {registry : Registry} {config : Config} {named : Prop}
  (h : Flow.Twins named (Flow.of s' registry config) (Flow.of s registry config))

include h

/-- **What the rules find in the normal form they find in the source.** -/
theorem thins_runRules :
    Thins False (Finding.Agrees (∀ t ∈ (Flow.of s registry config).cited, t.isVerbatim))
      ((runRules Rule.builtin (Flow.of s' registry config) config).map (·.finding))
      ((runRules Rule.builtin (Flow.of s registry config) config).map (·.finding)) := by
  have hsecrets := h.thins_checkSecrets.imp fun _ _ hx => hx.imp
    fun (hcited : ∀ t ∈ (Flow.of s registry config).cited, t.isVerbatim) t ht =>
      hcited t (List.mem_append_right _ ht)
  have hrule : ∀ r ∈ Rule.builtin,
      Thins False (Finding.Agrees (∀ t ∈ (Flow.of s registry config).cited, t.isVerbatim))
        ((r.check (Flow.of s' registry config) config).map (·.finding))
        ((r.check (Flow.of s registry config) config).map (·.finding)) := by
    simp only [Rule.builtin, List.forall_mem_cons, List.not_mem_nil, false_imp_iff, implies_true,
      and_true]
    exact ⟨.of_forall₂ (Finding.forall₂_agrees h.findings_checkEnvironment),
      .of_forall₂ (Finding.forall₂_agrees (h.findings_checkComplexity config)),
      .of_forall₂ (Finding.forall₂_agrees h.findings_checkDynamicCode), hsecrets,
      .of_forall₂ (Finding.forall₂_agrees h.findings_checkSchedule)⟩
  rw [runRules, runRules, List.map_flatMap, List.map_flatMap]
  refine Thins.flatMap_forall₂ (R := fun r' r => r' = r ∧ r ∈ Rule.builtin)
    (List.forall₂_same.2 fun r hr => ⟨rfl, List.mem_of_mem_filter hr⟩) ?_
  rintro _ r ⟨rfl, hr⟩
  exact hrule _ hr

/-- **What is found in the normal form is found in the source.** -/
theorem thins_validate :
    Thins False (Finding.Agrees (∀ t ∈ (Flow.of s registry config).cited, t.isVerbatim))
      (((Flow.of s' registry config).validate registry config Rule.builtin).diagnostics.map
        (·.finding))
      (((Flow.of s registry config).validate registry config Rule.builtin).diagnostics.map
        (·.finding)) := by
  have hquoted : ∀ x' x,
      Finding.Agrees (∀ t ∈ (Flow.of s registry config).quoted, t.isVerbatim) x' x →
        Finding.Agrees (∀ t ∈ (Flow.of s registry config).cited, t.isVerbatim) x' x :=
    fun _ _ hx => hx.imp fun hcited t ht => hcited t (List.mem_append_left _ ht)
  simp only [Flow.validate, List.map_append]
  exact (((((Thins.of_forall₂ ((h.agrees_checkStructure config).imp hquoted)).append
    (.of_forall₂ (Finding.forall₂_agrees h.findings_checkCredentials))).append
    (.of_forall₂ (Finding.forall₂_agrees (h.findings_checkRegistered registry)))).append
    (.of_forall₂ (Finding.forall₂_agrees (h.findings_checkParameters registry)))).append
    (h.thins_checkPayload.imp hquoted)).append h.thins_runRules

end Twins

end Flow

/-! ### Verdicts -/

namespace Analyzer

theorem findings_check (a : Analyzer) (hrules : a.hostRules = []) (s : Source) :
    (a.check s).diagnostics.map (·.finding) =
      ((a.flow s).validate a.registry a.config Rule.builtin).diagnostics.map (·.finding) := by
  rw [check, rules, hrules, List.append_nil]

section

variable {a : Analyzer} {s' s : Source} {named : Prop}

/-- What is found in the normal form of a flow is found in the flow. -/
theorem thins_check (hrules : a.hostRules = []) (h : Flow.Twins named (a.flow s') (a.flow s)) :
    Thins False (Finding.Agrees (∀ t ∈ (a.flow s).cited, t.isVerbatim))
      ((a.check s').diagnostics.map (·.finding)) ((a.check s).diagnostics.map (·.finding)) := by
  rw [findings_check a hrules, findings_check a hrules]
  exact h.thins_validate

/-- Nothing is found in the normal form of a valid flow. -/
theorem check_of_valid (hrules : a.hostRules = []) (h : Flow.Twins named (a.flow s') (a.flow s))
    (hvalid : (a.check s).valid) : a.check s' = a.check s := by
  have hnone : (a.check s).diagnostics = [] := List.isEmpty_iff.1 hvalid
  have hsub := (thins_check hrules h).sublist_map fun _ _ hx => hx.code
  rw [hnone, List.map_nil, List.map_nil, List.sublist_nil, List.map_eq_nil_iff,
    List.map_eq_nil_iff] at hsub
  exact congrArg Verdict.mk (hsub.trans hnone.symm)

/-- What is extracted from a valid flow is extracted from its normal form. -/
theorem agrees_extractFrom (hrules : a.hostRules = [])
    (h : Flow.Twins named (a.flow s') (a.flow s)) (hvalid : (a.check s).valid)
    (hash' hash : String) :
    Extraction.Agrees named (a.extractFrom s' hash') (a.extractFrom s hash) := by
  have hcheck := check_of_valid hrules h hvalid
  simp only [extractFrom, hcheck, hvalid, if_true]
  exact ⟨rfl, h.agrees_records a.registry a.config, h.requirements_eq a.registry,
    h.inputSchema?_eq, h.trigger?_eq⟩

end

/-- What is extracted from a text that follows the grammar is extracted from its source. -/
theorem extract_of_parse {a : Analyzer} {text : String} {s : Source}
    (hs : Source.parse text = .ok s) : a.extract text = a.extractFrom s (Hash.digest text) := by
  unfold extract
  simp only [hs]

/-- **The normal form of a flow is no worse than the flow.**  Where the parser reads the blocks of
the normal form as blocks around the promoted bodies, what is found in it is found in the flow, as
long as no promoted body stands in a text that is compared with names; the messages are the same if
none stands in a text that gets into messages.  So a valid flow stays valid, and what is extracted
from it stays the same. -/
theorem validate_normalize (a : Analyzer) (hrules : a.hostRules = []) {text : String}
    {s s' : Source} (h : Source.parse text = .ok s) (h' : Source.parse (normalize text) = .ok s')
    (hbraces : s'.Braces s) (hcompared : ∀ t ∈ (a.flow s).compared, t.isVerbatim) :
    ((a.validate (normalize text)).diagnostics.map (·.code)).Sublist
        ((a.validate text).diagnostics.map (·.code)) ∧
      ((∀ t ∈ (a.flow s).cited, t.isVerbatim) →
        ((a.validate (normalize text)).diagnostics.map fun d => (d.code, d.message)).Sublist
          ((a.validate text).diagnostics.map fun d => (d.code, d.message))) ∧
      ((a.validate text).valid → (a.validate (normalize text)).valid ∧
        Extraction.Agrees (∀ t ∈ (a.flow s).receivers, t.isVerbatim)
          (a.extract (normalize text)) (a.extract text)) := by
  have hbracing : s'.Bracing s :=
    ⟨hbraces, (rooted_of_parse h').2.2, (rooted_of_parse h).2.2, placed_of_parse h⟩
  have htwins := Flow.twins_of hbracing a.registry a.config hcompared
  have hthins := thins_check hrules htwins
  rw [validate_of_parse h, validate_of_parse h', extract_of_parse h, extract_of_parse h']
  refine ⟨?_, fun hcited => ?_, fun hvalid => ⟨?_, ?_⟩⟩
  · have hcodes := hthins.sublist_map fun _ _ hx => hx.code
    rwa [List.map_map, List.map_map] at hcodes
  · have hsaid := hthins.sublist_map fun _ _ hx =>
      congrArg (fun x : Finding => (x.code, x.message)) (hx.eq hcited)
    rwa [List.map_map, List.map_map] at hsaid
  · rwa [check_of_valid hrules htwins hvalid]
  · exact agrees_extractFrom hrules htwins hvalid _ _

/-- A valid flow in which a bubble is constructed in a branch. -/
def branchText : String := "class F extends B\x7bh()\x7bif(a)new A\x7d\x7d"

/-- The same flow in normal form. -/
def branchNormal : String := "class F extends B\x7bh()\x7bif(a) \x7b\n  new A\n\x7d\x7d\x7d"

theorem validate_normalize_branch : tokenAnalyzer.hostRules = [] ∧
    normalize branchText = branchNormal ∧
    ∃ s s', Source.parse branchText = .ok s ∧ Source.parse branchNormal = .ok s' ∧
      s'.Braces s ∧ (∀ t ∈ (tokenAnalyzer.flow s).compared, t.isVerbatim) ∧
      (∀ t ∈ (tokenAnalyzer.flow s).cited, t.isVerbatim) ∧
      (tokenAnalyzer.validate branchText).valid ∧
      ((tokenAnalyzer.validate branchNormal).diagnostics.map (·.code)).Sublist
        ((tokenAnalyzer.validate branchText).diagnostics.map (·.code)) ∧
      ((tokenAnalyzer.validate branchNormal).diagnostics.map fun d => (d.code, d.message)).Sublist
        ((tokenAnalyzer.validate branchText).diagnostics.map fun d => (d.code, d.message)) ∧
      (tokenAnalyzer.validate branchNormal).valid ∧
      Extraction.Agrees (∀ t ∈ (tokenAnalyzer.flow s).receivers, t.isVerbatim)
        (tokenAnalyzer.extract branchNormal) (tokenAnalyzer.extract branchText) := by
  have hread : (Source.parse branchText).toOption.any fun s =>
      decide (Text.Edit.applyEach branchText.toList s.sortedEdits = branchNormal.toList) &&
        (Source.parse branchNormal).toOption.any fun s' => decide (s'.Braces s) &&
          (tokenAnalyzer.flow s).compared.all (·.isVerbatim) &&
          (tokenAnalyzer.flow s).cited.all (·.isVerbatim) && (tokenAnalyzer.check s).valid := by
    decide +kernel
  obtain ⟨hnormal, s, s', h, h', hread⟩ := Source.exists_normal_of_any hread
  simp only [Bool.and_eq_true, decide_eq_true_eq, List.all_eq_true] at hread
  obtain ⟨⟨⟨hbraces, hcompared⟩, hcited⟩, hvalid⟩ := hread
  rw [← validate_of_parse h] at hvalid
  obtain ⟨hcodes, hsaid, hextracted⟩ :=
    validate_normalize tokenAnalyzer rfl h (hnormal.symm ▸ h') hbraces hcompared
  rw [hnormal] at hcodes hsaid hextracted
  exact ⟨rfl, hnormal, s, s', h, h', hbraces, hcompared, hcited, hvalid, hcodes, hsaid hcited,
    hextracted hvalid⟩

/-- A flow whose only method has a computed name with a body in it. -/
def computedName : String := "class F extends B\x7b[()=>\x7bif(a)b\x7d]()\x7b\x7d\x7d"

/-- The same flow in normal form: the name is written otherwise. -/
def computedNameNormal : String :=
  "class F extends B\x7b[()=>\x7bif(a) \x7b\n  b\n\x7d\x7d]()\x7b\x7d\x7d"

/-- An analysis that asks for a method with that name, as it is written. -/
def computedNameAnalyzer : Analyzer :=
  ⟨.empty, { tokenAnalyzer.config with entryMethod := "[()=>\x7bif(a)b\x7d]" }, []⟩

/-- A valid flow need not be valid in normal form: a name with a promoted body in it is another one
there. -/
theorem validate_normalize_computedName : computedNameAnalyzer.hostRules = [] ∧
    normalize computedName = computedNameNormal ∧
    ∃ s s', Source.parse computedName = .ok s ∧ Source.parse computedNameNormal = .ok s' ∧
      s'.Braces s ∧ (computedNameAnalyzer.validate computedName).diagnostics.map (·.code) = [] ∧
      (computedNameAnalyzer.validate computedNameNormal).diagnostics.map (·.code) =
        ["entry-method"] ∧
      ¬ ((computedNameAnalyzer.validate computedNameNormal).diagnostics.map
        fun d => (d.code, d.message)).Sublist
          ((computedNameAnalyzer.validate computedName).diagnostics.map
            fun d => (d.code, d.message)) := by
  have hread : (Source.parse computedName).toOption.any fun s =>
      decide (Text.Edit.applyEach computedName.toList s.sortedEdits = computedNameNormal.toList) &&
        (Source.parse computedNameNormal).toOption.any fun s' => decide (s'.Braces s) &&
          (computedNameAnalyzer.check s).valid &&
          decide ((computedNameAnalyzer.check s').diagnostics.map (·.code) = ["entry-method"]) := by
    decide +kernel
  obtain ⟨hnormal, s, s', h, h', hread⟩ := Source.exists_normal_of_any hread
  simp only [Bool.and_eq_true, decide_eq_true_eq] at hread
  obtain ⟨⟨hbraces, hvalid⟩, hcodes⟩ := hread
  rw [← validate_of_parse h] at hvalid
  rw [← validate_of_parse h'] at hcodes
  have hnone : (computedNameAnalyzer.validate computedName).diagnostics = [] :=
    List.isEmpty_iff.1 hvalid
  refine ⟨rfl, hnormal, s, s', h, h', hbraces, by rw [hnone, List.map_nil], hcodes, fun hsub => ?_⟩
  rw [hnone, List.map_nil, List.sublist_nil, List.map_eq_nil_iff] at hsub
  simp [hsub] at hcodes

end Analyzer

end FlowAnalysis
