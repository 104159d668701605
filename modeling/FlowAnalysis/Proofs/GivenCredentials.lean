import FlowAnalysis.Proofs.Injection
import FlowAnalysis.Proofs.ValidRecords

/-!
# Credentials that a flow gives

Among the parameters of a bubble a flow may give credentials of its own.  The check looks at the
first property with their name, an injection replaces the first parameter with it, but an object may
repeat a property, and a record has a parameter for each entry.  So in the records of a valid flow a
literal may stand among the repeated credentials, and these stay behind the handles that are
injected.

## Main definitions

* `Construction.entries`, `Construction.credentials` — the entries of the parameters, and those with
  the name of credentials.
* `Entry.literal?`, `Json.hasContent` — the value of an entry that is a literal, and whether there
  is something in it.
* `Entry.recordedName` — the name under which an entry is recorded.

## Main results

* `Argument.hasContent_eq` — what the check takes for hardcoded is a literal with something in it.
* `Flow.head_credentials_of_check` — what the check says about the first credentials.
* `Flow.exists_literal_credentials_iff`, `Flow.length_credentials` — credentials in records.
* `Analyzer.literal_credentials_iff` — **a record of a valid flow has literal credentials exactly if
  they are repeated ones.**
* `Analyzer.injected_once_iff` — **handles that are injected are the only credentials exactly if
  none were repeated.**
-/

namespace FlowAnalysis

open Syntax

/-! ### Literals -/

/-- Whether there is something in a literal. -/
def Json.hasContent : Json → Bool
  | .null | .meaningless => false
  | .bool _ | .number _ => true
  | .string s => s ≠ ""
  | .array items => !items.isEmpty
  | .object entries => !entries.isEmpty

namespace Argument

theorem isEmpty_itemsToJson? {items : List Argument} {vs : List Json}
    (h : itemsToJson? items = some vs) : vs.isEmpty = items.isEmpty := by
  cases items with
  | nil =>
    obtain rfl := Option.some.inj h
    rfl
  | cons a as =>
    rw [itemsToJson?] at h
    split at h
    · obtain rfl := Option.some.inj h
      rfl
    · simp at h

theorem isEmpty_entriesToJson? {es : List Entry} {vs : List (String × Json)}
    (h : entriesToJson? es = some vs) : vs.isEmpty = es.isEmpty := by
  cases es with
  | nil =>
    obtain rfl := Option.some.inj h
    rfl
  | cons e es =>
    rw [entriesToJson?] at h
    split at h
    · obtain rfl := Option.some.inj h
      rfl
    · simp at h

/-- What is taken for hardcoded is a literal with something in it, if it is a literal throughout. -/
theorem hasContent_eq {a : Argument} {v : Json} (h : a.toJson? = some v) :
    v.hasContent = a.isHardcoded := by
  cases a with
  | object es =>
    obtain ⟨vs, hvs, rfl⟩ := Option.map_eq_some_iff.1 h
    rw [Json.hasContent, isHardcoded, Keyed.isEmpty_sorted, isEmpty_entriesToJson? hvs]
  | array items =>
    obtain ⟨vs, hvs, rfl⟩ := Option.map_eq_some_iff.1 h
    rw [Json.hasContent, isHardcoded, isEmpty_itemsToJson? hvs]
  | undefined | reference | computed => simp [toJson?] at h
  | _ =>
    obtain rfl := Option.some.inj h
    rfl

end Argument

/-! ### Entries -/

namespace Entry

/-- The value of an entry that is a literal throughout. -/
def literal? (e : Entry) : Option Json := e.value?.bind Argument.toJson?

/-- The name under which an entry is recorded: its key, or the text of what has no plain key. -/
def recordedName (s : Source) : Entry → String
  | .property key _ _ _ => key
  | .spread t | .other t => s.textOf t

end Entry

namespace Construction

/-- The entries of the parameters of a construction. -/
def entries (c : Construction) (s : Source) : List Entry :=
  match c.paramsObject? with
  | some params => (s.classify params).entries
  | none => []

/-- The entries with the name of credentials. -/
def credentials (c : Construction) (s : Source) : List Entry :=
  (c.entries s).filter fun e => e.key? = some credentialsName

end Construction

namespace Flow

variable {f : Flow} {config : Config} {c : Construction}

/-- The check of credentials looks at the first that are given. -/
theorem credentialsOf?_eq (f : Flow) (c : Construction) : f.credentialsOf? c =
    (c.credentials f.source).head?.bind fun
      | .property _ _ value node => some (value, node)
      | _ => none := by
  rw [credentialsOf?, Construction.credentials, Construction.entries]
  cases c.paramsObject? with
  | none => rfl
  | some params =>
    rw [Option.bind_some, Argument.property?, List.head?_filter]
    cases (f.source.classify params).entries.find? fun e => e.key? = some credentialsName with
    | none => rfl
    | some e => cases e <;> rfl

/-- Where the check finds no fault, the first credentials are not hardcoded. -/
theorem head_credentials_of_check (h : f.checkCredentials = []) (hc : c ∈ f.constructions)
    {e : Entry} (he : (c.credentials f.source).head? = some e) {v : Json}
    (hv : e.literal? = some v) : v.hasContent = false := by
  have hnone := List.filterMap_eq_nil_iff.1 h c hc
  cases e with
  | property key keyNode value node =>
    rw [credentialsOf?_eq, he] at hnone
    rw [Argument.hasContent_eq hv]
    simpa using hnone
  | spread t => simp [Entry.literal?, Entry.value?] at hv
  | other t => simp [Entry.literal?, Entry.value?] at hv

/-! ### Records -/

theorem value_parameterOf (f : Flow) (config : Config) (name : String) (a : Argument) (t : Tree)
    (v : Json) : (f.parameterOf config name a t).value = .literal v ↔ a.toJson? = some v := by
  unfold parameterOf
  cases a.toJson? with
  | some w => simp
  | none =>
    dsimp only
    split <;> simp [expressionParameter]

/-- A parameter is literal where the property that it was recorded of is a literal throughout. -/
theorem value_parameterOfEntry (f : Flow) (config : Config) (e : Entry) (v : Json) :
    (f.parameterOfEntry config e).value = .literal v ↔ e.literal? = some v := by
  cases e with
  | property key keyNode a node => exact f.value_parameterOf config key a node v
  | spread t => simp [parameterOfEntry, expressionParameter, Entry.literal?, Entry.value?]
  | other t => simp [parameterOfEntry, expressionParameter, Entry.literal?, Entry.value?]

theorem recordedName_eq (f : Flow) (config : Config) (e : Entry) :
    (f.parameterOfEntry config e).name = e.recordedName f.source := by
  cases e with
  | property key keyNode a node => exact f.name_parameterOf config key a node
  | spread t => rfl
  | other t => rfl

/-- Parameters that are no object are recorded as a whole. -/
theorem name_of_paramsObject?_eq_none (h : c.paramsObject? = none) {p : Parameter}
    (hp : p ∈ f.parametersOfConstruction config c) : p.name = wholeName := by
  unfold parametersOfConstruction at hp
  split at hp
  · simp at hp
  · next first rest hargs =>
    split at hp
    · next es hclass =>
      have hobject := f.source.is_object_bare hclass
      simp [Construction.paramsObject?, hargs, hobject] at h
    · obtain rfl := List.mem_singleton.1 hp
      exact f.name_parameterOf config wholeName _ first

/-- The parameters of a construction are literal credentials where the credentials that it gives
are. -/
theorem exists_literal_credentials_iff (f : Flow) (config : Config) (c : Construction) :
    (∃ p ∈ f.parametersOfConstruction config c, p.name = credentialsName ∧
        ∃ v, p.value = .literal v ∧ v.hasContent) ↔
      ∃ e ∈ c.credentials f.source, ∃ v, e.literal? = some v ∧ v.hasContent := by
  cases hparams : c.paramsObject? with
  | none =>
    have hentries : c.credentials f.source = [] := by
      simp [Construction.credentials, Construction.entries, hparams]
    rw [hentries]
    constructor
    · rintro ⟨p, hp, hname, -⟩
      rw [name_of_paramsObject?_eq_none hparams hp] at hname
      exact absurd hname (by decide)
    · simp
  | some params =>
    have hentries : c.entries f.source = (f.source.classify params).entries := by
      simp [Construction.entries, hparams]
    rw [parametersOfConstruction_eq f config hparams, Construction.credentials, hentries]
    constructor
    · rintro ⟨p, hp, hname, v, hvalue, hv⟩
      obtain ⟨e, he, rfl⟩ := List.mem_map.1 hp
      rw [value_parameterOfEntry] at hvalue
      refine ⟨e, List.mem_filter.2 ⟨he, ?_⟩, v, hvalue, hv⟩
      -- What has no plain key is recorded under its text, but it is never literal.
      cases e with
      | property key keyNode a node =>
        rw [recordedName_eq] at hname
        exact decide_eq_true (congrArg some hname)
      | spread t => simp [Entry.literal?, Entry.value?] at hvalue
      | other t => simp [Entry.literal?, Entry.value?] at hvalue
    · rintro ⟨e, he, v, hvalue, hv⟩
      obtain ⟨he, hkey⟩ := List.mem_filter.1 he
      exact ⟨_, List.mem_map_of_mem he, f.name_parameterOfEntry config (of_decide_eq_true hkey), v,
        (f.value_parameterOfEntry config e v).2 hvalue, hv⟩

/-- As many parameters bear the name of credentials as entries are recorded under it. -/
theorem length_credentials (f : Flow) (registry : Registry) (config : Config) (n : Nat)
    (c : Construction) : (f.recordOf registry config n c).credentials.length =
      ((c.entries f.source).filter fun e => e.recordedName f.source = credentialsName).length := by
  rw [Record.credentials, show (f.recordOf registry config n c).parameters =
    f.parametersOfConstruction config c from rfl]
  cases hparams : c.paramsObject? with
  | none =>
    have hnone : (f.parametersOfConstruction config c).filter (·.name = credentialsName) = [] := by
      rw [List.filter_eq_nil_iff]
      intro p hp
      rw [name_of_paramsObject?_eq_none hparams hp]
      decide
    rw [hnone, Construction.entries, hparams]
    rfl
  | some params =>
    rw [parametersOfConstruction_eq f config hparams, List.filter_map, List.length_map,
      Construction.entries, hparams]
    simp only [Function.comp_def, recordedName_eq]

/-- What holds of every construction and its record holds throughout. -/
theorem forall₂_records {R : Construction → Nat × Record → Prop} {registry : Registry}
    (h : ∀ c ∈ f.constructions, ∀ n, R c (n, f.recordOf registry config n c)) :
    List.Forall₂ R f.constructions (f.records registry config) := by
  rw [records, List.forall₂_iff_get]
  refine ⟨by simp, fun i hi _ => ?_⟩
  simpa using h _ (List.getElem_mem hi) (i + 1)

end Flow

/-! ### Valid flows -/

/-- **A record of a valid flow has literal credentials exactly if they are repeated ones**: behind
the first credentials that its construction gives there are some that are a literal with something
in it. -/
theorem Analyzer.literal_credentials_iff {a : Analyzer} {text : String}
    (h : (a.extract text).verdict.valid) : ∃ s, Source.parse text = .ok s ∧
      List.Forall₂ (fun c e =>
        (∃ p ∈ e.2.parameters, p.name = credentialsName ∧
            ∃ v, p.value = .literal v ∧ v.hasContent) ↔
          ∃ entry ∈ (c.credentials s).tail, ∃ v, entry.literal? = some v ∧ v.hasContent)
        (a.flow s).constructions (a.extract text).records := by
  obtain ⟨s, hs, hvalid, hrecords, -⟩ := extract_of_valid h
  obtain ⟨-, hcheck, -⟩ := Flow.checks_of_valid hvalid
  refine ⟨s, hs, ?_⟩
  rw [hrecords]
  refine Flow.forall₂_records fun c hc n => ?_
  refine ((a.flow s).exists_literal_credentials_iff a.config c).trans ?_
  rw [source_flow]
  cases hgiven : c.credentials s with
  | nil => simp
  | cons first rest =>
    rw [List.tail_cons, List.exists_mem_cons_iff]
    -- The check has cleared the first credentials, and no others.
    refine or_iff_right ?_
    rintro ⟨v, hv, hcontent⟩
    have hfirst : (c.credentials (a.flow s).source).head? = some first := by
      rw [source_flow, hgiven]
      rfl
    simp [Flow.head_credentials_of_check hcheck hc hfirst hv] at hcontent

/-- An analysis with one class of bubbles, which needs one kind of credentials. -/
def needyAnalyzer : Analyzer :=
  ⟨.ofList [⟨"A", "a", none, .service, .object ⟨none, [], [], false⟩, ⟨["K"], []⟩⟩],
    { Config.standard with baseClass := "B", entryMethod := "h" }, []⟩

/-- A flow that gives a bubble credentials twice, the second time as a literal. -/
def repeatedText : String :=
  "class F extends B\x7bh()\x7bnew A(\x7bcredentials:k,credentials:'x'\x7d)\x7d\x7d"

/-- Whether a parameter is a literal with something in it. -/
def Parameter.hasLiteral (p : Parameter) : Bool :=
  match p.value with
  | .literal v => v.hasContent
  | .expression _ => false

/-- The flow is valid though it has literal credentials, and these are left by an injection. -/
theorem extract_repeatedText :
    let e := needyAnalyzer.extract repeatedText
    e.verdict.valid ∧
      (e.records.map fun r => r.2.credentials.map Parameter.hasLiteral) = [[false, true]] ∧
      e.requirements = [("A", ["K"])] ∧
      ((e.records.inject e.requirements [("K", "handle")]).map fun r =>
        r.2.credentials.map (·.editable)) = [[false, true]] := by decide +kernel

/-- A valid flow may have literal credentials. -/
theorem Analyzer.literal_credentials_repeated :
    (needyAnalyzer.extract repeatedText).verdict.valid ∧
    ∃ s, Source.parse repeatedText = .ok s ∧
      List.Forall₂ (fun c e =>
        (∃ p ∈ e.2.parameters, p.name = credentialsName ∧
            ∃ v, p.value = .literal v ∧ v.hasContent) ↔
          ∃ entry ∈ (c.credentials s).tail, ∃ v, entry.literal? = some v ∧ v.hasContent)
        (needyAnalyzer.flow s).constructions (needyAnalyzer.extract repeatedText).records :=
  ⟨extract_repeatedText.1, Analyzer.literal_credentials_iff extract_repeatedText.1⟩

/-- **Handles that are injected are the only credentials exactly if none were repeated.**  They are
always the first credentials of a record whose class needs some. -/
theorem Analyzer.injected_once_iff {a : Analyzer} {text : String}
    (h : (a.extract text).verdict.valid) (handles : Handles) : ∃ s, Source.parse text = .ok s ∧
      List.Forall₂ (fun c e => ∀ kinds,
          Keyed.get? (a.extract text).requirements e.2.className = some kinds →
            e.2.credentials.head? = some (handles.parameter kinds) ∧
              (e.2.credentials.length = 1 ↔
                ((c.entries s).filter fun e => e.recordedName s = credentialsName).length ≤ 1))
        (a.flow s).constructions
        ((a.extract text).records.inject (a.extract text).requirements handles) := by
  obtain ⟨s, hs, -, hrecords, -⟩ := extract_of_valid h
  refine ⟨s, hs, ?_⟩
  rw [Records.inject, List.forall₂_map_right_iff, hrecords]
  refine Flow.forall₂_records fun c _ n kinds hkinds => ?_
  rw [Record.className_inject] at hkinds
  have hlength := (a.flow s).length_credentials a.registry a.config n c
  -- The handles took the place of the first credentials, if there were any.
  rw [Record.credentials_inject hkinds, List.length_cons, List.length_tail, hlength, source_flow]
  exact ⟨rfl, by omega⟩

/-- Handles are injected in front of credentials that were repeated. -/
theorem Analyzer.injected_once_repeated :
    let e := needyAnalyzer.extract repeatedText
    let handles : Handles := [("K", "handle"), ("L", "other")]
    e.verdict.valid ∧
    ∃ s, Source.parse repeatedText = .ok s ∧
      List.Forall₂ (fun c e' => ∀ kinds, Keyed.get? e.requirements e'.2.className = some kinds →
          e'.2.credentials.head? = some (handles.parameter kinds) ∧
            (e'.2.credentials.length = 1 ↔
              ((c.entries s).filter fun e => e.recordedName s = credentialsName).length ≤ 1))
        (needyAnalyzer.flow s).constructions (e.records.inject e.requirements handles) :=
  ⟨extract_repeatedText.1, Analyzer.injected_once_iff extract_repeatedText.1 _⟩

end FlowAnalysis
