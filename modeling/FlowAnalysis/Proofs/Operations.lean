import FlowAnalysis.Proofs.GivenCredentials
import FlowAnalysis.Proofs.Keyed

/-!
# Operations that are named again

The operation of a construction is the text of a field of its parameters.  The record, the
credentials and the check of the parameters look for that field each on their own, and each takes
the first property with its name.  But an object may name a property again, and when it is
evaluated the last counts, as it does when the object is written as a value.

## Main definitions

* `evaluated`, `evaluatedText?` — the properties of an object that was evaluated, and the text that
  one of them is.
* `Flow.GoesBy` — the record, the credentials and the check of a construction go by an operation.

## Main results

* `get?_evaluated`, `map_get?_of_toJson?` — the last property with a name counts, also in the value
  of a literal.
* `Contract.check_of_schemaFor?` — parameters are checked against the variant of their operation.
* `Flow.goesBy_textAt?` — everything goes by the first property with the name of the field.
* `Flow.goesBy_evaluated_iff` — **everything goes by the operation that is evaluated exactly if the
  first and the last property with the name of the field are the same text, or neither is a text.**
-/

namespace FlowAnalysis

open Syntax

/-! ### Evaluation -/

/-- The key and the value that a property gives to an object. -/
def Entry.assignment? : Entry → Option (String × Argument)
  | .property key _ value _ => some (key, value)
  | .spread _ | .other _ => none

theorem Entry.filterMap_property (key : String) (keyNode : Tree) (a : Argument) (node : Tree)
    (es : List Entry) : (Entry.property key keyNode a node :: es).filterMap Entry.assignment? =
      (key, a) :: es.filterMap Entry.assignment? := rfl

/-- The text that a literal is. -/
def Argument.text? : Argument → Option String
  | .string s => some s
  | _ => none

/-- The properties that an object has of its plain ones once they were evaluated one after the
other; one that is named again has the new value. -/
def evaluated (es : List Entry) : List (String × Argument) :=
  Keyed.ofList (es.filterMap Entry.assignment?)

/-- The text that a property is once the object was evaluated. -/
def evaluatedText? (es : List Entry) (key : String) : Option String :=
  (Keyed.get? (evaluated es) key).bind Argument.text?

/-- **The last property with a name counts.** -/
theorem get?_evaluated (es : List Entry) (key : String) :
    Keyed.get? (evaluated es) key = Keyed.get? (es.reverse.filterMap Entry.assignment?) key := by
  rw [evaluated, Keyed.get?_ofList, ← List.filterMap_reverse]

/-- The first property with a key is the first assignment to it. -/
theorem bind_value?_property? (es : List Entry) (key : String) :
    ((Argument.object es).property? key).bind Entry.value? =
      Keyed.get? (es.filterMap Entry.assignment?) key := by
  rw [Argument.property?, Argument.entries]
  induction es with
  | nil => rfl
  | cons e es ih =>
    cases e with
    | property k keyNode a node =>
      rw [Entry.filterMap_property, Keyed.get?_cons]
      by_cases hk : k = key
      · rw [if_pos hk, List.find?_cons_of_pos (by simp [Entry.key?, hk])]
        rfl
      · rw [if_neg hk, List.find?_cons_of_neg (by simp [Entry.key?, hk]), ih]
    | spread t | other t =>
      rw [List.filterMap_cons_none rfl, List.find?_cons_of_neg (by simp [Entry.key?]), ih]

theorem textAt?_eq (es : List Entry) (key : String) :
    textAt? es key = (Keyed.get? (es.filterMap Entry.assignment?) key).bind Argument.text? := by
  rw [textAt?, bind_value?_property?]
  cases Keyed.get? (es.filterMap Entry.assignment?) key with
  | none => rfl
  | some a => cases a <;> rfl

/-- What is evaluated is the text of the last property with a key. -/
theorem evaluatedText?_eq (es : List Entry) (key : String) :
    evaluatedText? es key = textAt? es.reverse key := by
  rw [evaluatedText?, get?_evaluated, textAt?_eq]

example :
    let es : List Entry := [.property "o" default (.string "x") default,
      .property "y" default .reference default, .property "o" default (.string "z") default]
    textAt? es "o" = some "x" ∧ evaluatedText? es "o" = some "z" := by
  decide +kernel

namespace Argument

theorem map_get?_of_entriesToJson? {es : List Entry} {vs : List (String × Json)}
    (h : entriesToJson? es = some vs) (key : String) :
    (Keyed.get? (es.reverse.filterMap Entry.assignment?) key).map toJson? =
      (Keyed.get? vs.reverse key).map some := by
  induction es generalizing vs with
  | nil =>
    obtain rfl := Option.some.inj h
    rfl
  | cons e es ih =>
    rw [entriesToJson?] at h
    split at h
    · next v vs' hv hvs =>
      obtain rfl := Option.some.inj h
      rw [List.reverse_cons, List.filterMap_append, List.reverse_cons, Keyed.get?_append,
        Keyed.get?_append, Option.map_or, Option.map_or, ih hvs]
      -- The entry itself is a property, as its value is a literal.
      cases e with
      | property k keyNode a node =>
        obtain ⟨w, hw, rfl⟩ := Option.map_eq_some_iff.1 hv
        rw [Entry.filterMap_property, List.filterMap_nil, Keyed.get?_cons, Keyed.get?_cons]
        split
        · rw [Option.map_some, Option.map_some, hw]
        · rfl
      | spread t | other t => simp [entryToJson?] at hv
    · simp at h

/-- **In the value of a literal, too, the last property with a name counts.** -/
theorem map_get?_of_toJson? {es : List Entry} {vs : List (String × Json)}
    (h : (Argument.object es).toJson? = some (.object vs)) (key : String) :
    (Keyed.get? (evaluated es) key).map toJson? = (Keyed.get? vs key).map some := by
  obtain ⟨vs', hvs, heq⟩ := Option.map_eq_some_iff.1 h
  obtain rfl := Json.object.inj heq
  rw [get?_evaluated, map_get?_of_entriesToJson? hvs, Keyed.get?_sorted]

end Argument

/-! ### Variants -/

namespace Contract

variable {c : Contract} {es : List Entry} {op : Option String}

/-- The property that names a variant. -/
theorem exists_property_of_textAt? {key s : String} (h : textAt? es key = some s) :
    ∃ k keyNode node, (Argument.object es).property? key =
      some (.property k keyNode (.string s) node) := by
  unfold textAt? at h
  cases he : (Argument.object es).property? key with
  | none => simp [he] at h
  | some e =>
    cases e with
    | spread t => simp [he, Entry.value?] at h
    | other t => simp [he, Entry.value?] at h
    | property k keyNode a node =>
      cases a with
      | string text =>
        obtain rfl : text = s := by simpa [he, Entry.value?] using h
        exact ⟨k, keyNode, node, rfl⟩
      | _ => simp [he, Entry.value?] at h

/-- **Parameters are checked against the variant of their operation**, where there is one. -/
theorem check_of_schemaFor? (p : Place) (anchor : Tree) {schema : ObjectSchema}
    (hop : ∀ field, c.discriminator? = some field → textAt? es field = op)
    (hname : c.discriminator? = none → schema.name.getD p.typeName = p.typeName)
    (hschema : c.schemaFor? op = some schema) : c.check p anchor es = schema.check
      { p with typeName := schema.name.getD p.typeName } c.discriminator? anchor es := by
  cases c with
  | object schema' =>
    obtain rfl := Option.some.inj hschema
    rw [hname rfl]
    rfl
  | union field variants =>
    obtain ⟨s, rfl, hs⟩ := Option.bind_eq_some_iff.1 hschema
    obtain ⟨k, keyNode, node, hproperty⟩ := exists_property_of_textAt? (hop field rfl)
    rw [check, checkUnion, hproperty]
    simp only [hs]
    rfl

/-- An operation that is no variant is all that is found. -/
theorem exists_check_of_unknown (p : Place) (anchor : Tree) {name : String}
    (hop : ∀ field, c.discriminator? = some field → textAt? es field = some name)
    (hschema : c.schemaFor? (some name) = none) : ∃ field t, c.discriminator? = some field ∧
      c.check p anchor es = [(.typeMismatch (inQuotes name)
        (joined alternativeMark (c.operations.map inQuotes)) field p.className, t)] := by
  cases c with
  | object schema => simp [schemaFor?] at hschema
  | union field variants =>
    obtain ⟨k, keyNode, node, hproperty⟩ := exists_property_of_textAt? (hop field rfl)
    refine ⟨field, node, rfl, ?_⟩
    have hnone : Keyed.get? variants name = none := hschema
    rw [check, checkUnion, hproperty]
    simp only [hnone, operations, List.map_map]
    rfl

end Contract

/-! ### Constructions -/

/-- All that is done with a construction goes by an operation, or by none. -/
structure Flow.GoesBy (f : Flow) (registry : Registry) (config : Config) (c : Construction)
    (op : Option String) : Prop where
  recorded : ∀ number, (f.recordOf registry config number c).operation = op
  credentials : ∀ d, registry.resolve? c.className = some d →
    f.kindsOf registry c = d.credentials.forOperation op
  /-- The parameters are checked against the variant of the operation. -/
  variant : ∀ d params schema, registry.resolve? c.className = some d →
    c.paramsObject? = some params → d.contract.schemaFor? op = some schema →
      f.checkConstruction registry c =
        schema.check ⟨c.className, "", schema.name.getD d.paramsTypeName⟩ d.contract.discriminator?
          params (c.entries f.source)
  /-- An operation that is no variant is reported as such, and nothing else is. -/
  unknown : ∀ d params name, registry.resolve? c.className = some d →
    c.paramsObject? = some params → op = some name → d.contract.schemaFor? op = none →
      ∃ t, f.checkConstruction registry c = [(.typeMismatch (inQuotes name)
        (joined alternativeMark (d.contract.operations.map inQuotes))
        (operationField registry c.className) c.className, t)]

namespace Flow

variable (f : Flow) (registry : Registry) (config : Config) (c : Construction)

theorem operation?_eq_textAt? (field : String) :
    f.operation? c field = textAt? (c.entries f.source) field := by
  rw [Construction.entries]
  cases hparams : c.paramsObject? with
  | none =>
    rw [operation?, hparams]
    rfl
  | some params => exact f.operation?_eq hparams field

/-- **Everything goes by the first property with the name of the field.** -/
theorem goesBy_textAt? : f.GoesBy registry config c
    (textAt? (c.entries f.source) (operationField registry c.className)) := by
  have hoperation := f.operation?_eq_textAt? c (operationField registry c.className)
  have hentries : ∀ params, c.paramsObject? = some params →
      c.entries f.source = (f.source.classify params).entries := by
    intro params hparams
    rw [Construction.entries, hparams]
  have hfield : ∀ d field, registry.resolve? c.className = some d →
      d.contract.discriminator? = some field → operationField registry c.className = field := by
    intro d field hd hfield
    simp [operationField, hd, hfield]
  constructor
  case recorded =>
    intro number
    exact hoperation
  case credentials =>
    intro d hd
    rw [kindsOf, hd, ← hoperation]
  case variant =>
    intro d params schema hd hparams hschema
    have hop : ∀ field, d.contract.discriminator? = some field →
        textAt? (c.entries f.source) field =
          textAt? (c.entries f.source) (operationField registry c.className) := by
      intro field h
      rw [hfield d field hd h]
    have hname : d.contract.discriminator? = none →
        schema.name.getD d.paramsTypeName = d.paramsTypeName := by
      intro h
      cases hcontract : d.contract with
      | union field variants => simp [hcontract, Contract.discriminator?] at h
      | object schema' =>
        rw [hcontract] at hschema
        obtain rfl : schema' = schema := Option.some.inj hschema
        simp only [Definition.paramsTypeName, hcontract]
        cases schema'.name <;> rfl
    have hcheck := Contract.check_of_schemaFor? ⟨c.className, "", d.paramsTypeName⟩ params hop hname
      hschema
    rw [checkConstruction, hd, hparams]
    dsimp only
    rw [← hentries params hparams, hcheck]
  case unknown =>
    intro d params name hd hparams hname hschema
    have hop : ∀ field, d.contract.discriminator? = some field →
        textAt? (c.entries f.source) field = some name := by
      intro field h
      rw [← hname, hfield d field hd h]
    rw [hname] at hschema
    obtain ⟨field, t, hd', hcheck⟩ := Contract.exists_check_of_unknown
      ⟨c.className, "", d.paramsTypeName⟩ params hop hschema
    refine ⟨t, ?_⟩
    rw [checkConstruction, hd, hparams]
    dsimp only
    rw [← hentries params hparams, hcheck, hfield d field hd hd']

/-- **Everything goes by the operation that is evaluated exactly if the first and the last property
with the name of the field are the same text, or neither is a text.** -/
theorem goesBy_evaluated_iff :
    f.GoesBy registry config c
        (evaluatedText? (c.entries f.source) (operationField registry c.className)) ↔
      textAt? (c.entries f.source) (operationField registry c.className) =
        textAt? (c.entries f.source).reverse (operationField registry c.className) := by
  rw [evaluatedText?_eq]
  constructor
  · intro h
    -- Two operations by which everything goes are both the recorded one.
    exact ((f.goesBy_textAt? registry config c).recorded 0).symm.trans (h.recorded 0)
  · intro h
    rw [← h]
    exact f.goesBy_textAt? registry config c

end Flow

end FlowAnalysis
