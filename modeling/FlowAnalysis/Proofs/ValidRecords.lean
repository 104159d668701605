import FlowAnalysis.Analysis
import FlowAnalysis.Proofs.Classification
import FlowAnalysis.Proofs.Conformance
import Mathlib.Data.List.Forall2

/-!
# The records of valid flows

Checks and records look at the constructions of a flow on their own, each classifying the arguments
anew.  What the checks find no fault with is what the records say: every record is of a known class,
and its parameters are those of the schema that its operation chooses.

## Main definitions

* `Contract.schemaFor?` — the schema that holds for an operation.
* `ObjectSchema.Lists` — parameters that were recorded of entries follow a schema.
* `Record.Vouched` — the record of a construction follows the registry.

## Main results

* `Contract.follows_of_check` — parameters without a fault follow the schema that holds for them.
* `Analyzer.vouched_of_valid` — **the records of a valid flow follow the registry.**
-/

namespace FlowAnalysis

open Syntax

/-- The first argument of a construction is classified as its parameters are. -/
theorem Construction.classify_paramsObject {c : Construction} {params : Tree}
    (h : c.paramsObject? = some params) (s : Source) :
    ∃ first rest, c.arguments = first :: rest ∧
      s.classify first = .object (s.classify params).entries := by
  unfold paramsObject? at h
  split at h
  · next first rest hargs =>
    split at h
    · next hobject =>
      obtain rfl := Option.some.inj h
      refine ⟨first, rest, hargs, ?_⟩
      rw [← s.classify_bare first, s.classify_of_object hobject]
      rfl
    · simp at h
  · simp at h

/-! ### Schemas -/

/-- The schema that holds for an operation: that of the variant which it names, where there are
several. -/
def Contract.schemaFor? (c : Contract) (operation : Option String) : Option ObjectSchema :=
  match c with
  | .object schema => some schema
  | .union _ variants => operation.bind (Keyed.get? variants)

/-- Whether a key is looked after elsewhere: the credentials, and the field that names the
operation. -/
def Contract.Reserves (c : Contract) (key : String) : Prop :=
  key = credentialsName ∨ c.discriminator? = some key

/-- Entries use a schema: what is not reserved is declared or allowed, and what is required is there
unless something that is no plain property may stand for it. -/
structure ObjectSchema.Follows (reserved : String → Prop) (schema : ObjectSchema)
    (es : List Entry) : Prop where
  known : ∀ e ∈ es, ∀ key, e.key? = some key →
    (schema.property? key).isSome ∨ reserved key ∨ schema.additional
  complete : hasSpread es ∨ ∀ key ∈ schema.required, ¬ reserved key → hasKey es key

/-- Entries without a fault at the top use the schema. -/
theorem ObjectSchema.follows_of_check {p : Place} (hp : p.path = "") {discriminator : Option String}
    {schema : ObjectSchema} {anchor : Tree} {es : List Entry}
    (h : ObjectSchema.check p discriminator anchor es schema = []) :
    schema.Follows (fun key => key = credentialsName ∨ discriminator = some key) es := by
  obtain ⟨name, properties, required, additional⟩ := schema
  simp only [ObjectSchema.check, List.append_eq_nil_iff, List.flatMap_eq_nil_iff,
    FieldSchema.checkNamed_eq] at h
  obtain ⟨present, absent⟩ := h
  have hexempt : ∀ key, isExempt p discriminator key ↔
      key = credentialsName ∨ discriminator = some key := by simp [isExempt, hp]
  refine ⟨?_, ?_⟩
  · intro e he key hkey
    cases e with
    | spread t => simp [Entry.key?] at hkey
    | other t => simp [Entry.key?] at hkey
    | property k keyNode a node =>
      obtain rfl : k = key := Option.some.inj hkey
      have hfound := present _ he
      by_cases hx : isExempt p discriminator k
      · exact .inr (.inl ((hexempt k).1 hx))
      · simp only [hx, Bool.false_eq_true, if_false] at hfound
        cases hs : Keyed.get? properties k with
        | some s => exact .inl (by simp [property?, ObjectSchema.properties, hs])
        | none =>
          simp only [hs, Option.map_none] at hfound
          exact .inr (.inr (by simpa [ObjectSchema.additional] using hfound))
  · rw [Classical.or_iff_not_imp_left]
    intro hspread key (hk : key ∈ required) hx
    have hnot : isExempt p discriminator key = false :=
      Bool.eq_false_iff.2 (mt (hexempt key).1 hx)
    rw [if_neg hspread, List.map_eq_nil_iff, List.filter_eq_nil_iff] at absent
    simpa [hnot] using absent key hk

/-! ### Operations -/

/-- The text that the first property with a key is. -/
def textAt? (es : List Entry) (key : String) : Option String :=
  match ((Argument.object es).property? key).bind Entry.value? with
  | some (.string s) => some s
  | _ => none

/-- **Parameters without a fault follow the schema that holds for their operation**, and the
operation is one of the variants. -/
theorem Contract.follows_of_check {c : Contract} {p : Place} (hp : p.path = "") {anchor : Tree}
    {es : List Entry} (h : c.check p anchor es = []) :
    (∀ d variants op, c = .union d variants → textAt? es d = some op → op ∈ c.operations) ∧
      ∀ op schema, (∀ d, c.discriminator? = some d → textAt? es d = op) →
        c.schemaFor? op = some schema → schema.Follows c.Reserves es := by
  cases c with
  | object schema =>
    refine ⟨nofun, ?_⟩
    rintro op schema' - hschema
    obtain rfl : schema = schema' := Option.some.inj hschema
    exact ObjectSchema.follows_of_check hp h
  | union d variants =>
    -- Only a text chooses a variant, and then the entries are checked against that.
    have hchosen : ∀ op, textAt? es d = some op → ∃ schema, Keyed.get? variants op = some schema ∧
        schema.Follows (Contract.union d variants).Reserves es := by
      intro op hop
      unfold textAt? at hop
      unfold Contract.check checkUnion at h
      cases he : (Argument.object es).property? d with
      | none => simp [he] at hop
      | some e =>
        cases e with
        | spread t => simp [he, Entry.value?] at hop
        | other t => simp [he, Entry.value?] at hop
        | property key keyNode a node =>
          cases a with
          | string text =>
            obtain rfl : text = op := by simpa [he, Entry.value?] using hop
            cases hs : Keyed.get? variants text with
            | none => simp [he, hs] at h
            | some schema =>
              simp only [he, hs] at h
              have hfollows := ObjectSchema.follows_of_check
                (p := { p with typeName := schema.name.getD p.typeName }) hp h
              exact ⟨schema, rfl, hfollows⟩
          | _ => simp [he, Entry.value?] at hop
    refine ⟨?_, ?_⟩
    · rintro _ _ op ⟨⟩ hop
      obtain ⟨schema, hs, -⟩ := hchosen op hop
      exact List.mem_map.2 ⟨_, Keyed.mem_of_get? hs, rfl⟩
    · intro op schema hop hschema
      cases op with
      | none => simp [schemaFor?] at hschema
      | some op =>
        obtain ⟨schema', hs, hfollows⟩ := hchosen op (hop d rfl)
        obtain rfl : schema' = schema := by simpa [schemaFor?, hs] using hschema
        exact hfollows

/-! ### Records -/

/-- Parameters that were recorded of entries follow a schema: the name of each plain property is
declared, reserved or allowed, and what is required is among the parameters unless something that is
no plain property may stand for it. -/
structure ObjectSchema.Lists (reserved : String → Prop) (schema : ObjectSchema) (es : List Entry)
    (parameters : List Parameter) : Prop where
  known : List.Forall₂ (fun e p => ∀ key, e.key? = some key →
    p.name = key ∧ ((schema.property? key).isSome ∨ reserved key ∨ schema.additional)) es parameters
  complete : hasSpread es ∨
    ∀ key ∈ schema.required, ¬ reserved key → ∃ p ∈ parameters, p.name = key

/-- The record of a construction follows the registry. -/
structure Record.Vouched (registry : Registry) (s : Source) (c : Construction) (r : Record) :
    Prop where
  className : r.className = c.className
  /-- The class is known, and so is what kind of bubble it is. -/
  registered : ∃ d, registry.resolve? r.className = some d ∧ r.kind = some d.kind
  /-- An operation is one of the variants, where there are variants. -/
  operation : ∀ d field variants op, registry.resolve? r.className = some d →
    d.contract = .union field variants → r.operation = some op → op ∈ d.contract.operations
  /-- The parameters of an object follow the schema that holds for the operation. -/
  parameters : ∀ d params schema, registry.resolve? r.className = some d →
    c.paramsObject? = some params → d.contract.schemaFor? r.operation = some schema →
      schema.Lists d.contract.Reserves (s.classify params).entries r.parameters

namespace Flow

/-- A parameter bears the name of the property that it was recorded of. -/
theorem name_parameterOf (f : Flow) (config : Config) (name : String) (a : Argument) (t : Tree) :
    (f.parameterOf config name a t).name = name := by
  unfold parameterOf
  split
  · rfl
  · split <;> rfl

theorem name_parameterOfEntry (f : Flow) (config : Config) {e : Entry} {key : String}
    (h : e.key? = some key) : (f.parameterOfEntry config e).name = key := by
  cases e with
  | property k keyNode a node =>
    obtain rfl : k = key := Option.some.inj h
    exact f.name_parameterOf config k a node
  | spread t => simp [Entry.key?] at h
  | other t => simp [Entry.key?] at h

/-- Each entry of the parameters is recorded. -/
theorem parametersOfConstruction_eq (f : Flow) (config : Config) {c : Construction} {params : Tree}
    (h : c.paramsObject? = some params) : f.parametersOfConstruction config c =
      (f.source.classify params).entries.map (f.parameterOfEntry config) := by
  obtain ⟨first, rest, hargs, hfirst⟩ := c.classify_paramsObject h f.source
  simp [parametersOfConstruction, hargs, hfirst]

/-- The operation of a construction is the text of a property of its parameters. -/
theorem operation?_eq (f : Flow) {c : Construction} {params : Tree}
    (h : c.paramsObject? = some params) (field : String) :
    f.operation? c field = textAt? (f.source.classify params).entries field := by
  rw [operation?, h]
  rfl

theorem lists_of_follows (f : Flow) (config : Config) {reserved : String → Prop}
    {schema : ObjectSchema} {es : List Entry} (h : schema.Follows reserved es) :
    schema.Lists reserved es (es.map (f.parameterOfEntry config)) := by
  refine ⟨?_, ?_⟩
  · rw [List.forall₂_map_right_iff, List.forall₂_same]
    exact fun e he key hkey => ⟨f.name_parameterOfEntry config hkey, h.known e he key hkey⟩
  · refine h.complete.imp_right fun hcomplete key hk hx => ?_
    obtain ⟨e, he, hkey⟩ := List.any_eq_true.1 (hcomplete key hk hx)
    exact ⟨_, List.mem_map_of_mem he,
      f.name_parameterOfEntry config (of_decide_eq_true hkey)⟩

/-- The record of a construction without a fault follows the registry. -/
theorem vouched_recordOf (f : Flow) {registry : Registry} (config : Config) (number : Nat)
    {c : Construction} (hknown : registry.contains c.className)
    (hcheck : f.checkConstruction registry c = []) :
    (f.recordOf registry config number c).Vouched registry f.source c := by
  obtain ⟨d, hd⟩ := Option.isSome_iff_exists.1 hknown
  -- What the check says about the parameters.
  have hfollows : ∀ params, c.paramsObject? = some params → d.contract.check
      ⟨c.className, "", d.paramsTypeName⟩ params (f.source.classify params).entries = [] := by
    intro params hparams
    simpa [checkConstruction, hd, hparams] using hcheck
  have hfield : ∀ field, d.contract.discriminator? = some field →
      operationField registry c.className = field := by
    intro field h
    simp [operationField, hd, h]
  refine ⟨rfl, ⟨d, hd, by simp [recordOf, hd]⟩, ?_, ?_⟩
  · intro d' field variants op hd' hunion hop
    obtain rfl : d = d' := Option.some.inj (hd.symm.trans hd')
    have hop : f.operation? c field = some op := by
      rw [← hfield field (by simp [hunion, Contract.discriminator?])]
      exact hop
    cases hparams : c.paramsObject? with
    | none => simp [operation?, hparams] at hop
    | some params =>
      rw [f.operation?_eq hparams] at hop
      exact (Contract.follows_of_check rfl (hfollows params hparams)).1 field variants op hunion hop
  · intro d' params schema hd' hparams hschema
    obtain rfl : d = d' := Option.some.inj (hd.symm.trans hd')
    rw [show (f.recordOf registry config number c).parameters = f.parametersOfConstruction config c
      from rfl, f.parametersOfConstruction_eq config hparams]
    refine f.lists_of_follows config
      ((Contract.follows_of_check rfl (hfollows params hparams)).2 _ schema ?_ hschema)
    intro field h
    rw [← f.operation?_eq hparams, ← hfield field h]
    rfl

/-- The diagnostics of a valid flow are those of each check: none. -/
theorem checks_of_valid {f : Flow} {registry : Registry} {config : Config} {rules : List Rule}
    (h : (f.validate registry config rules).valid) :
    f.checkStructure config = [] ∧ f.checkCredentials = [] ∧ f.checkRegistered registry = [] ∧
      f.checkParameters registry = [] ∧ f.checkPayload = [] ∧ runRules rules f config = [] := by
  simpa [validate, Verdict.valid, and_assoc] using h

end Flow

@[simp] theorem Analyzer.source_flow (a : Analyzer) (s : Source) : (a.flow s).source = s := rfl

/-- What is extracted from a valid text is read off its flow. -/
theorem Analyzer.extract_of_valid {a : Analyzer} {text : String}
    (h : (a.extract text).verdict.valid) : ∃ s, Source.parse text = .ok s ∧ (a.check s).valid ∧
      (a.extract text).records = (a.flow s).records a.registry a.config ∧
        (a.extract text).requirements = (a.flow s).requirements a.registry := by
  unfold extract at h ⊢
  cases hs : Source.parse text with
  | error e => simp [hs, Extraction.invalid, Verdict.valid] at h
  | ok s =>
    simp only [hs] at h
    have hvalid : (a.check s).valid := by
      by_contra hv
      simp [extractFrom, hv, Extraction.invalid] at h
    exact ⟨s, rfl, hvalid, by simp [extractFrom, hvalid], by simp [extractFrom, hvalid]⟩

/-- **The records of a valid flow follow the registry.**  They are the records of its constructions,
in their order; each is of a known class, its operation is one of the variants of the class, and its
parameters follow the schema that holds for the operation. -/
theorem Analyzer.vouched_of_valid {a : Analyzer} {text : String}
    (h : (a.extract text).verdict.valid) : ∃ s, Source.parse text = .ok s ∧
      List.Forall₂ (fun c e => e.2.Vouched a.registry s c) (a.flow s).constructions
        (a.extract text).records := by
  unfold extract at h ⊢
  cases hs : Source.parse text with
  | error e => simp [hs, Extraction.invalid, Verdict.valid] at h
  | ok s =>
    simp only [hs] at h
    have hvalid : (a.check s).valid := by
      by_contra hv
      simp [extractFrom, hv, Extraction.invalid] at h
    obtain ⟨-, -, hregistered, hparameters, -, -⟩ := Flow.checks_of_valid hvalid
    have hrecords : (a.extractFrom s (Hash.digest text)).records =
        (a.flow s).records a.registry a.config := by simp [extractFrom, hvalid]
    refine ⟨s, rfl, ?_⟩
    rw [hrecords, Flow.records, List.forall₂_iff_get]
    refine ⟨by simp, ?_⟩
    intro i hi _
    have hmem := List.getElem_mem hi
    have hknown : a.registry.contains (a.flow s).constructions[i].className := by
      simp only [Flow.checkRegistered, List.map_eq_nil_iff, List.filter_eq_nil_iff] at hregistered
      simpa using hregistered _ hmem
    have hcheck : (a.flow s).checkConstruction a.registry (a.flow s).constructions[i] = [] := by
      simp only [Flow.checkParameters, List.map_eq_nil_iff, List.flatMap_eq_nil_iff] at hparameters
      exact hparameters _ hmem
    simpa using (a.flow s).vouched_recordOf a.config (i + 1) hknown hcheck

/-- A registry with a class whose parameters depend on the operation, and one with fixed parameters. -/
def nestedRegistry : Registry := .ofList
  [⟨"A", "a", none, .tool, .union "o" [("x", ⟨none, [("y", .any)], ["y"], false⟩)], .none⟩,
   ⟨"C", "c", none, .service, .object ⟨none, [("n", .number)], ["n"], false⟩, .none⟩]

/-- One bubble is constructed among the parameters of another. -/
theorem Analyzer.vouched_nested :
    let a : Analyzer := ⟨nestedRegistry, { Config.standard with baseClass := "B", entryMethod := "h" }, []⟩
    let text := "class F extends B\x7bh()\x7bnew A(\x7bo:'x',y:new C(\x7bn:1\x7d)\x7d)\x7d\x7d"
    ((a.extract text).verdict.valid ∧ (a.extract text).records.length = 2) ∧
      ∃ s, Source.parse text = .ok s ∧
        List.Forall₂ (fun c e => e.2.Vouched a.registry s c) (a.flow s).constructions
          (a.extract text).records := by
  intro a text
  have h : (a.extract text).verdict.valid ∧ (a.extract text).records.length = 2 := by decide +kernel
  exact ⟨h, Analyzer.vouched_of_valid h.1⟩

end FlowAnalysis
