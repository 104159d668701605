import FlowAnalysis.Proofs.Conformance
import FlowAnalysis.Proofs.Decoding
import FlowAnalysis.Registry

/-!
# Definitions that are stored as JSON

A definition is written as a value and read back as itself, however deeply its schemas are nested
and in whatever order its maps are.  What is read has no key of a map twice and all literals in
order, so writing and reading it again changes nothing.

## Main definitions

* `FieldSchema.Proper`, `Contract.Proper`, `Definition.Proper` — no key of a map stands twice, and
  the literals are values as they are held.

## Main results

* `FieldSchema.decode_toJson`, `Contract.ofJson?_toJson`, `Definition.ofJson?_toJson` — **what is
  written is read back.**
* `FieldSchema.proper_of_decode`, `Definition.proper_of_ofJson?` — **what is read is proper.**
-/

namespace FlowAnalysis

open Json (Fields fields? tagged? formOf? asString? asStrings? asBool? asOption? asWord? asMap? asList?)

/-! ### Nesting -/

namespace Json

variable {α : Type}

/-- An item of an array is nested less deeply. -/
theorem depth_lt_of_mem_items {items : List Json} {v : Json} (h : v ∈ items) :
    v.depth < (array items).depth := by
  rw [depth, Nat.lt_succ_iff]
  induction items with
  | nil => cases h
  | cons w items ih =>
    rw [depthOfItems]
    rcases List.mem_cons.1 h with rfl | h
    · exact Nat.le_max_left _ _
    · exact (ih h).trans (Nat.le_max_right _ _)

/-- The value of an entry is nested less deeply than the object. -/
theorem depth_lt_of_mem_entries {entries : List (String × Json)} {e : String × Json}
    (h : e ∈ entries) : e.2.depth < (object entries).depth := by
  rw [depth, Nat.lt_succ_iff]
  induction entries with
  | nil => cases h
  | cons d entries ih =>
    obtain ⟨k, v⟩ := d
    rw [depthOfEntries]
    rcases List.mem_cons.1 h with rfl | h
    · exact Nat.le_max_left _ _
    · exact (ih h).trans (Nat.le_max_right _ _)

/-- A value with a tag in front is told apart by the tag. -/
theorem tagged?_object {numbered : List String} {tag : String} {entries : List (String × Json)}
    (h : ∀ e ∈ entries, e.1 ≠ "type") :
    (object (("type", .string tag) :: entries)).tagged? numbered = some (tag, .object entries) := by
  have hnone : entries.filter (·.1 == "type") = [] := by
    simpa [List.filter_eq_nil_iff] using h
  have hall : entries.filter (·.1 != "type") = entries := by
    simpa [List.filter_eq_self] using h
  simp [tagged?, formOf?, hnone, hall]

end Json

/-! ### Schemas -/

/-- No key of a map in a schema stands twice, and the literals are values as they are held. -/
inductive FieldSchema.Proper : FieldSchema → Prop
  | string (values : Option (List String)) : Proper (.string values)
  | number : Proper .number
  | boolean : Proper .boolean
  | array {items : FieldSchema} (h : Proper items) : Proper (.array items)
  | object {schema : ObjectSchema} (hkeys : (schema.properties.map (·.1)).Nodup)
    (h : ∀ e ∈ schema.properties, Proper e.2) : Proper (.object schema)
  | literal {value : Json} (h : value.Proper) : Proper (.literal value)
  | oneOf {variants : List FieldSchema} (h : ∀ s ∈ variants, Proper s) : Proper (.oneOf variants)
  | any : Proper .any

/-- No property of an object stands twice, and all of them are proper. -/
structure ObjectSchema.Proper (s : ObjectSchema) : Prop where
  nodup_keys : (s.properties.map (·.1)).Nodup
  properties : ∀ e ∈ s.properties, e.2.Proper

theorem FieldSchema.toJsons_eq (ss : List FieldSchema) :
    FieldSchema.toJsons ss = ss.map FieldSchema.toJson := by
  induction ss with
  | nil => rfl
  | cons s ss ih => rw [FieldSchema.toJsons, ih, List.map_cons]

theorem FieldSchema.toJsonEntries_eq (es : List (String × FieldSchema)) :
    FieldSchema.toJsonEntries es = es.map fun e => (e.1, e.2.toJson) := by
  induction es with
  | nil => rfl
  | cons e es ih => rw [FieldSchema.toJsonEntries, ih, List.map_cons]

/-- The entries of the schema of an object have no tag. -/
theorem ObjectSchema.ne_type_of_mem_toEntries (s : ObjectSchema) :
    ∀ e ∈ s.toEntries, e.1 ≠ "type" := by
  obtain ⟨name, properties, required, additional⟩ := s
  cases name <;> simp [ObjectSchema.toEntries, Json.entry?]

/-- The schema of a property is nested less deeply than the schema of the object, by two. -/
theorem ObjectSchema.depth_lt_of_mem {s : ObjectSchema} {e : String × FieldSchema}
    (h : e ∈ s.properties) : e.2.toJson.depth + 1 < (Json.object s.toEntries).depth := by
  obtain ⟨name, properties, required, additional⟩ := s
  have hinner : e.2.toJson.depth < (Json.object (FieldSchema.toJsonEntries properties)).depth := by
    rw [FieldSchema.toJsonEntries_eq]
    exact Json.depth_lt_of_mem_entries (List.mem_map_of_mem (f := fun e => (e.1, e.2.toJson)) h)
  have houter : (Json.object (FieldSchema.toJsonEntries properties)).depth <
      (Json.object (ObjectSchema.toEntries ⟨name, properties, required, additional⟩)).depth :=
    Json.depth_lt_of_mem_entries
      (e := ("properties", Json.object (FieldSchema.toJsonEntries properties)))
      (by simp [ObjectSchema.toEntries])
  omega

/-- The schema of an object is read back if the schemas of its properties are. -/
theorem ObjectSchema.decode_toEntries {s : ObjectSchema} (hkeys : (s.properties.map (·.1)).Nodup)
    (h : ∀ e ∈ s.properties, ∀ n, e.2.toJson.depth < n →
      FieldSchema.decode n e.2.toJson = some e.2) {n : Nat}
    (hn : (Json.object s.toEntries).depth ≤ n) :
    ObjectSchema.decode n (.object s.toEntries) = some s := by
  obtain ⟨n, rfl⟩ : ∃ m, n = m + 1 := ⟨n - 1, by rw [Json.depth] at hn; omega⟩
  obtain ⟨name, properties, required, additional⟩ := s
  have hproperties : asMap? (FieldSchema.decode n)
      (.object (FieldSchema.toJsonEntries properties)) = some properties := by
    rw [FieldSchema.toJsonEntries_eq]
    refine Json.asMap?_object hkeys fun e he => h e he n ?_
    have := depth_lt_of_mem (s := ⟨name, properties, required, additional⟩) he
    omega
  rw [ObjectSchema.decode, toEntries, Json.fields?_object ?_ (by decide)]
  · simp [Fields.optional_eq, Fields.withDefault, Fields.get?, Keyed.get?_append, Keyed.get?_cons,
      Json.get?_optionalEntry, asBool?, Json.asStrings?_strings, Json.elim_asOption? Json.asOption?_string,
      hproperties]
  · cases name <;> exact of_decide_eq_true rfl

/-- **A schema is read back.** -/
theorem FieldSchema.decode_toJson {s : FieldSchema} (h : s.Proper) :
    ∀ n, s.toJson.depth < n → FieldSchema.decode n s.toJson = some s := by
  induction h with
  | string values =>
    rintro (_ | n) hn
    · simp at hn
    · cases values <;>
        simp [decode, toJson, Json.entry?, tagged?, formOf?, fields?, Fields.optional, Fields.withDefault,
          Fields.get?, Keyed.get?_cons, Json.asOption?_strings]
  | number | boolean | any =>
    rintro (_ | n) hn
    · simp at hn
    · simp [decode, toJson, tagged?, formOf?, Json.nothingMore]
  | @array items _ ih =>
    rintro (_ | n) hn
    · simp at hn
    · have hitems : items.toJson.depth < (FieldSchema.array items).toJson.depth :=
        Json.depth_lt_of_mem_entries (e := ("items", items.toJson)) (by simp)
      simp [decode, toJson, tagged?, formOf?, fields?, Fields.required, Fields.get?, Keyed.get?_cons,
        ih n (by omega)]
  | @object schema hkeys _ ih =>
    rintro (_ | n) hn
    · simp at hn
    · have hdepth : (Json.object schema.toEntries).depth ≤ n :=
        Nat.succ_le_of_lt (by simpa [toJson, Json.depth, Json.depthOfEntries] using hn)
      simp [decode, toJson, Json.tagged?_object schema.ne_type_of_mem_toEntries,
        ObjectSchema.decode_toEntries hkeys ih hdepth]
  | literal hvalue =>
    rintro (_ | n) hn
    · simp at hn
    · simp [decode, toJson, tagged?, formOf?, fields?, Fields.required, Fields.get?, Keyed.get?_cons,
        Json.asAny?_of_proper hvalue]
  | @oneOf variants _ ih =>
    rintro (_ | n) hn
    · simp at hn
    · have hvariants : asList? (FieldSchema.decode n) (.array (FieldSchema.toJsons variants)) =
          some variants := by
        rw [FieldSchema.toJsons_eq]
        refine Json.asList?_array fun s hs => ih s hs n ?_
        have hinner := Json.depth_lt_of_mem_items
          (List.mem_map_of_mem (f := FieldSchema.toJson) hs)
        have houter : (Json.array (FieldSchema.toJsons variants)).depth <
            (FieldSchema.oneOf variants).toJson.depth :=
          Json.depth_lt_of_mem_entries (e := ("variants", .array (FieldSchema.toJsons variants)))
            (by simp)
        rw [FieldSchema.toJsons_eq] at houter
        omega
      simp [decode, toJson, tagged?, formOf?, fields?, Fields.required, Fields.get?, Keyed.get?_cons,
        hvariants]

/-! ### Every part of what is written has a meaning -/

theorem Json.usable_strings (xs : List String) : (Json.strings xs).usable := by
  rw [strings, usable, usableItems_iff, List.forall_mem_map]
  exact fun _ _ => rfl

theorem ObjectSchema.usable_toEntries {s : ObjectSchema}
    (h : ∀ e ∈ s.properties, e.2.toJson.usable) : Json.usableEntries s.toEntries := by
  obtain ⟨name, properties, required, additional⟩ := s
  have hproperties : Json.usableEntries (FieldSchema.toJsonEntries properties) := by
    rw [FieldSchema.toJsonEntries_eq, Json.usableEntries_iff, List.forall_mem_map]
    exact h
  cases name <;>
    simp [toEntries, Json.entry?, Json.usableEntries, Json.usable, hproperties,
      Json.usable_strings]

theorem FieldSchema.usable_toJson {s : FieldSchema} (h : s.Proper) : s.toJson.usable := by
  induction h with
  | string values =>
    cases values <;>
      simp [toJson, Json.entry?, Json.usable, Json.usableEntries, Json.usable_strings]
  | number | boolean | any => rfl
  | array _ ih => simp [toJson, Json.usable, Json.usableEntries, ih]
  | object _ _ ih =>
    simp [toJson, Json.usable, Json.usableEntries, ObjectSchema.usable_toEntries ih]
  | literal hvalue => simp [toJson, Json.usable, Json.usableEntries, hvalue.usable]
  | @oneOf variants _ ih =>
    have hvariants : Json.usableItems (toJsons variants) := by
      rw [toJsons_eq, Json.usableItems_iff, List.forall_mem_map]
      exact ih
    simp [toJson, Json.usable, Json.usableEntries, hvariants]

/-! ### Contracts -/

/-- No property or variant of a contract stands twice, and the schemas are proper. -/
inductive Contract.Proper : Contract → Prop
  | object {schema : ObjectSchema} (h : schema.Proper) : Proper (.object schema)
  | union (discriminator : String) {variants : List (String × ObjectSchema)}
    (hkeys : (variants.map (·.1)).Nodup) (h : ∀ e ∈ variants, e.2.Proper) :
    Proper (.union discriminator variants)

namespace ObjectSchema

variable {s : ObjectSchema}

theorem Proper.decode_toEntries (h : s.Proper) {n : Nat}
    (hn : (Json.object s.toEntries).depth ≤ n) :
    ObjectSchema.decode n (.object s.toEntries) = some s :=
  ObjectSchema.decode_toEntries h.nodup_keys
    (fun e he => FieldSchema.decode_toJson (h.properties e he)) hn

theorem Proper.usable_toEntries (h : s.Proper) : Json.usableEntries s.toEntries :=
  ObjectSchema.usable_toEntries fun e he => FieldSchema.usable_toJson (h.properties e he)

end ObjectSchema

namespace Contract

variable {c : Contract}

theorem usable_toJson (h : c.Proper) : c.toJson.usable := by
  cases h with
  | object hschema => simp [toJson, Json.usable, Json.usableEntries, hschema.usable_toEntries]
  | @union _ variants _ hvariants =>
    have hentries : Json.usableEntries (variants.map fun e => (e.1, e.2.toJson)) := by
      rw [Json.usableEntries_iff, List.forall_mem_map]
      exact fun e he => (hvariants e he).usable_toEntries
    simp [toJson, Json.usable, Json.usableEntries, hentries]

/-- **A contract is read back.** -/
theorem ofJson?_toJson (h : c.Proper) {limit : Nat} (hlimit : c.toJson.depth ≤ limit) :
    ofJson? limit c.toJson = some c := by
  have hfits : c.toJson.fits limit := by
    simp [Json.fits, usable_toJson h, hlimit]
  rw [ofJson?, if_pos hfits]
  cases h with
  | @object schema hschema =>
    have hdecode : ObjectSchema.decode (decodingSteps (Contract.object schema).toJson)
        (.object schema.toEntries) = some schema := by
      refine hschema.decode_toEntries ?_
      rw [decodingSteps]
      simp only [toJson, Json.depth, Json.depthOfEntries]
      omega
    rw [toJson] at hdecode ⊢
    simp [Json.tagged?_object schema.ne_type_of_mem_toEntries, hdecode]
  | @union discriminator variants hkeys hvariants =>
    have hdecode : asMap? (ObjectSchema.decode
        (decodingSteps (Contract.union discriminator variants).toJson))
          (.object (variants.map fun e => (e.1, e.2.toJson))) = some variants := by
      refine Json.asMap?_object hkeys fun e he => (hvariants e he).decode_toEntries ?_
      have hinner : e.2.toJson.depth <
          (Json.object (variants.map fun e => (e.1, e.2.toJson))).depth :=
        Json.depth_lt_of_mem_entries (List.mem_map_of_mem (f := fun e => (e.1, e.2.toJson)) he)
      have houter : (Json.object (variants.map fun e => (e.1, e.2.toJson))).depth <
          (Contract.union discriminator variants).toJson.depth :=
        Json.depth_lt_of_mem_entries
          (e := ("variants", .object (variants.map fun e => (e.1, e.2.toJson)))) (by simp)
      rw [ObjectSchema.toJson] at hinner
      rw [decodingSteps]
      omega
    rw [toJson] at hdecode ⊢
    simp [tagged?, formOf?, fields?, Fields.required, Fields.get?, Keyed.get?_cons, asString?, hdecode]

end Contract

/-! ### Definitions -/

/-- No key of a map in a definition stands twice, and the literals are values as they are held. -/
structure Definition.Proper (d : Definition) : Prop where
  contract : d.contract.Proper
  nodup_operations : (d.credentials.operations.map (·.1)).Nodup

theorem BubbleKind.asWord?_toJson (k : BubbleKind) : asWord? words k.toJson = some k := by
  cases k <;> rfl

theorem CredentialSpec.ofJson?_toJson {s : CredentialSpec}
    (h : (s.operations.map (·.1)).Nodup) : ofJson? s.toJson = some s := by
  have hoperations := Json.asMap?_object (w := Json.strings) h
    fun e _ => Json.asStrings?_strings e.2
  simp [ofJson?, toJson, fields?, Fields.withDefault, Fields.get?, Keyed.get?_cons,
    Json.asStrings?_strings, hoperations]

/-- **A definition is read back.** -/
theorem Definition.ofJson?_toJson {d : Definition} (h : d.Proper) {limit : Nat}
    (hlimit : d.toJson.depth ≤ limit) : ofJson? limit d.toJson = some d := by
  have hcontract : Contract.ofJson? (limit - 1) d.contract.toJson = some d.contract := by
    refine Contract.ofJson?_toJson h.contract ?_
    have hinner : d.contract.toJson.depth < d.toJson.depth :=
      Json.depth_lt_of_mem_entries (e := ("params", d.contract.toJson)) (by simp)
    omega
  have hcredentials := CredentialSpec.ofJson?_toJson h.nodup_operations
  rw [ofJson?, toJson, Json.fields?_object ?_ (by decide)]
  · simp [Fields.required, Fields.optional_eq, Fields.withDefault, Fields.get?, Keyed.get?_append,
      Keyed.get?_cons, Json.get?_optionalEntry, Json.asString?_string, BubbleKind.asWord?_toJson,
      Json.elim_asOption? Json.asOption?_string, hcontract, hcredentials]
  · cases d.displayName <;> exact of_decide_eq_true rfl

/-! ### What is read is proper -/

namespace Json.Fields

variable {α : Type} {f : Fields} {name : String} {decode : Json → Option α} {a : α}

/-- A field that must be there is read off a value. -/
theorem exists_of_required (h : f.required name decode = some a) : ∃ v, decode v = some a := by
  obtain ⟨v, -, hv⟩ := Option.bind_eq_some_iff.1 h
  exact ⟨v, hv⟩

/-- What is made of one field is made of what is read off a value. -/
theorem exists_of_map_required {β : Type} {names : List String} {make : α → β} {v : Json} {b : β}
    (h : (do
      let f ← v.fields? names
      make <$> f.required name decode) = some b) : ∃ w a, decode w = some a ∧ make a = b := by
  simp only [Option.bind_eq_bind, Option.bind_eq_some_iff, Option.map_eq_map,
    Option.map_eq_some_iff] at h
  obtain ⟨f, -, a, ha, hb⟩ := h
  obtain ⟨w, hw⟩ := exists_of_required ha
  exact ⟨w, a, hw, hb⟩

/-- A field that may be absent is read off a value, or has the value that stands in. -/
theorem exists_of_withDefault {default : α} (h : f.withDefault name decode default = some a) :
    (∃ v, decode v = some a) ∨ a = default := by
  unfold withDefault at h
  split at h
  · next v _ => exact .inl ⟨v, h⟩
  · exact .inr (Option.some.inj h).symm

end Json.Fields

/-- A form that has nothing to add to its tag is that of the tag. -/
theorem Json.eq_of_nothingMore {α : Type} {a b : α} {v : Json} (h : nothingMore a v = some b) :
    b = a := by
  unfold nothingMore at h
  split at h
  · simp at h
  · exact (Option.some.inj h).symm

theorem ObjectSchema.proper_of_decode {n : Nat}
    (hn : ∀ v s, FieldSchema.decode n v = some s → s.Proper) {v : Json} {s : ObjectSchema}
    (h : ObjectSchema.decode (n + 1) v = some s) : s.Proper := by
  simp only [decode, Option.bind_eq_bind, Option.bind_eq_some_iff] at h
  obtain ⟨f, -, name, -, properties, hproperties, required, -, additional, -, h⟩ := h
  obtain rfl := Option.some.inj h
  rcases Json.Fields.exists_of_withDefault hproperties with ⟨w, hw⟩ | rfl
  · obtain ⟨hkeys, hvalues⟩ := Json.exists_of_asMap? hw
    refine ⟨hkeys, fun e he => ?_⟩
    obtain ⟨u, hu⟩ := hvalues e he
    exact hn u e.2 hu
  · exact ⟨List.nodup_nil, List.forall_mem_nil _⟩

/-- **A schema that is read is proper.** -/
theorem FieldSchema.proper_of_decode (n : Nat) :
    (∀ v s, FieldSchema.decode n v = some s → s.Proper) ∧
      ∀ v s, ObjectSchema.decode n v = some s → s.Proper := by
  induction n with
  | zero => exact ⟨fun v s h => by simp [decode] at h, fun v s h => by simp [ObjectSchema.decode] at h⟩
  | succ n ih =>
    refine ⟨fun v s h => ?_, fun v s h => ObjectSchema.proper_of_decode ih.1 h⟩
    rw [decode] at h
    split at h
    case h_1 =>
      simp only [Option.bind_eq_bind, Option.bind_eq_some_iff, Option.map_eq_map,
        Option.map_eq_some_iff] at h
      obtain ⟨_, -, values, -, rfl⟩ := h
      exact .string values
    case h_2 =>
      obtain rfl := Json.eq_of_nothingMore h
      exact .number
    case h_3 =>
      obtain rfl := Json.eq_of_nothingMore h
      exact .boolean
    case h_4 =>
      obtain ⟨w, items, hw, rfl⟩ := Json.Fields.exists_of_map_required h
      exact .array (ih.1 w items hw)
    case h_5 =>
      obtain ⟨schema, hschema, rfl⟩ := Option.map_eq_some_iff.1 h
      have hproper := ih.2 _ schema hschema
      exact .object hproper.nodup_keys hproper.properties
    case h_6 =>
      obtain ⟨w, value, hw, rfl⟩ := Json.Fields.exists_of_map_required h
      exact .literal (Json.proper_of_asAny? hw)
    case h_7 =>
      obtain ⟨w, variants, hw, rfl⟩ := Json.Fields.exists_of_map_required h
      refine .oneOf fun s hs => ?_
      obtain ⟨u, hu⟩ := Json.exists_of_asList? hw s hs
      exact ih.1 u s hu
    case h_8 =>
      obtain rfl := Json.eq_of_nothingMore h
      exact .any
    case h_9 => simp at h

theorem Contract.proper_of_ofJson? {limit : Nat} {v : Json} {c : Contract}
    (h : ofJson? limit v = some c) : c.Proper := by
  unfold ofJson? at h
  split at h
  · split at h
    · obtain ⟨schema, hschema, rfl⟩ := Option.map_eq_some_iff.1 h
      exact .object ((FieldSchema.proper_of_decode _).2 _ schema hschema)
    · simp only [Option.bind_eq_bind, Option.bind_eq_some_iff] at h
      obtain ⟨f, -, discriminator, -, variants, hvariants, h⟩ := h
      obtain rfl := Option.some.inj h
      obtain ⟨w, hw⟩ := Json.Fields.exists_of_required hvariants
      obtain ⟨hkeys, hvalues⟩ := Json.exists_of_asMap? hw
      refine .union discriminator hkeys fun e he => ?_
      obtain ⟨u, hu⟩ := hvalues e he
      exact (FieldSchema.proper_of_decode _).2 u e.2 hu
    · simp at h
  · simp at h

theorem CredentialSpec.nodup_of_ofJson? {v : Json} {s : CredentialSpec}
    (h : ofJson? v = some s) : (s.operations.map (·.1)).Nodup := by
  simp only [ofJson?, Option.bind_eq_bind, Option.bind_eq_some_iff] at h
  obtain ⟨f, -, default, -, operations, hoperations, h⟩ := h
  obtain rfl := Option.some.inj h
  rcases Json.Fields.exists_of_withDefault hoperations with ⟨w, hw⟩ | rfl
  · exact (Json.exists_of_asMap? hw).1
  · exact List.nodup_nil

/-- **A definition that is read is proper.** -/
theorem Definition.proper_of_ofJson? {limit : Nat} {v : Json} {d : Definition}
    (h : ofJson? limit v = some d) : d.Proper := by
  simp only [ofJson?, Option.bind_eq_bind, Option.bind_eq_some_iff] at h
  obtain ⟨f, -, className, -, bubbleName, -, displayName, -, kind, -, contract, hcontract,
    credentials, hcredentials, h⟩ := h
  obtain rfl := Option.some.inj h
  refine ⟨?_, ?_⟩
  · rcases Json.Fields.exists_of_withDefault hcontract with ⟨w, hw⟩ | rfl
    · exact Contract.proper_of_ofJson? hw
    · exact .object ⟨List.nodup_nil, List.forall_mem_nil _⟩
  · rcases Json.Fields.exists_of_withDefault hcredentials with ⟨w, hw⟩ | rfl
    · exact CredentialSpec.nodup_of_ofJson? hw
    · exact List.nodup_nil

end FlowAnalysis
