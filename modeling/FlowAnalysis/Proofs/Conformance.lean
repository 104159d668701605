import FlowAnalysis.Check.Parameters
import FlowAnalysis.Proofs.Keyed

/-!
# Parameters that conform to a contract

What it means for the parameters of a construction to conform to a contract, without regard to how
they are checked, and that the check finds no fault exactly with those that do.

The place of a check is part of what it finds, and one exemption hangs on it: the credentials are
looked after elsewhere only at the top, which is recognised by an empty path.  A field without a name
would leave the path empty, so contracts with such a field at the top are left out.

## Main definitions

* `Conforms` — a value conforms to the schema of a field.
* `ObjectSchema.Fits` — entries fit the schema of an object, some keys being exempt.
* `Contract.Accepts` — entries conform to a contract.

## Main results

* `FieldSchema.check_eq_nil_iff` — below the top, the check of a value decides `Conforms`.
* `ObjectSchema.check_eq_nil_iff` — the check of entries decides `ObjectSchema.Fits`.
* `Contract.check_eq_nil_iff_accepts` — **the check of parameters decides `Contract.Accepts`.**
-/

namespace FlowAnalysis

/-! ### Induction over schemas -/

/-- Schemas are built up from the schemas of elements, of fields and of variants. -/
@[elab_as_elim]
theorem FieldSchema.induction {P : FieldSchema → Prop} (string : ∀ values, P (.string values))
    (number : P .number) (boolean : P .boolean) (array : ∀ items, P items → P (.array items))
    (object : ∀ schema : ObjectSchema, (∀ e ∈ schema.properties, P e.2) → P (.object schema))
    (literal : ∀ value, P (.literal value))
    (oneOf : ∀ variants, (∀ s ∈ variants, P s) → P (.oneOf variants)) (any : P .any) :
    ∀ s, P s := by
  intro s
  refine FieldSchema.rec (motive_1 := P)
    (motive_2 := fun o => ∀ e ∈ o.properties, P e.2) (motive_3 := fun vs => ∀ v ∈ vs, P v)
    (motive_4 := fun es => ∀ e ∈ es, P e.2) (motive_5 := fun e => P e.2)
    string number boolean array object literal oneOf any ?_ ?_ ?_ ?_ ?_ ?_ s
  · intro _ _ _ _ h
    exact h
  · simp
  · intro v vs hv hvs
    rw [List.forall_mem_cons]
    exact ⟨hv, hvs⟩
  · simp
  · intro e es he hes
    rw [List.forall_mem_cons]
    exact ⟨he, hes⟩
  · intro _ _ h
    exact h

/-! ### Conformance -/

/-- Whether a value is trusted, because it is computed elsewhere or is `undefined`. -/
def Argument.isTrusted : Argument → Bool
  | .reference | .computed | .undefined => true
  | _ => false

/-- A value conforms to the schema of a field. -/
inductive Conforms : FieldSchema → Argument → Prop
  /-- A trusted value conforms to every schema. -/
  | trusted {s : FieldSchema} {a : Argument} (h : a.isTrusted) : Conforms s a
  | any {a : Argument} : Conforms .any a
  | text {t : String} : Conforms (.string none) (.string t)
  /-- An empty list of texts does not restrict anything. -/
  | unlisted {t : String} : Conforms (.string (some [])) (.string t)
  | listed {values : List String} {t : String} (h : t ∈ values) :
    Conforms (.string (some values)) (.string t)
  | number {n : Number} : Conforms .number (.number n)
  | boolean {b : Bool} : Conforms .boolean (.bool b)
  /-- A value that is literal throughout conforms to the schema of an equal value. -/
  | literal {v w : Json} {a : Argument} (value : a.toJson? = some w) (same : v.same w) :
    Conforms (.literal v) a
  | array {s : FieldSchema} {items : List Argument} (h : ∀ a ∈ items, Conforms s a) :
    Conforms (.array s) (.array items)
  /-- Declared properties conform, others are allowed, and none that is required is missing, unless
  something that is no plain property may stand for it. -/
  | object {schema : ObjectSchema} {es : List Entry}
    (declared : ∀ key keyNode a node s, Entry.property key keyNode a node ∈ es →
      schema.property? key = some s → Conforms s a)
    (known : schema.additional ∨ ∀ key keyNode a node, Entry.property key keyNode a node ∈ es →
      (schema.property? key).isSome)
    (complete : hasSpread es ∨ ∀ key ∈ schema.required, hasKey es key) :
    Conforms (.object schema) (.object es)
  | oneOf {variants : List FieldSchema} {s : FieldSchema} {a : Argument} (mem : s ∈ variants)
    (h : Conforms s a) : Conforms (.oneOf variants) a

/-- Entries fit the schema of an object, where exempt keys are looked after elsewhere. -/
structure ObjectSchema.Fits (exempt : String → Prop) (schema : ObjectSchema) (es : List Entry) :
    Prop where
  /-- What is declared conforms. -/
  declared : ∀ key keyNode a node s, Entry.property key keyNode a node ∈ es → ¬ exempt key →
    schema.property? key = some s → Conforms s a
  /-- What is not declared is allowed. -/
  known : schema.additional ∨ ∀ key keyNode a node, Entry.property key keyNode a node ∈ es →
    ¬ exempt key → (schema.property? key).isSome
  /-- What is required is there, unless something that is no plain property may stand for it. -/
  complete : hasSpread es ∨ ∀ key ∈ schema.required, ¬ exempt key → hasKey es key

/-- The first plain property with a key has a value. -/
def HasFirst (es : List Entry) (key : String) (a : Argument) : Prop :=
  ∃ e, es.find? (fun e => e.key? = some key) = some e ∧ e.value? = some a

/-- Entries conform to a contract. -/
inductive Contract.Accepts : Contract → List Entry → Prop
  | object {schema : ObjectSchema} {es : List Entry}
    (h : schema.Fits (fun key => key = credentialsName) es) : Accepts (.object schema) es
  /-- The discriminator names a variant, and the entries fit that. -/
  | variant {d : String} {variants : List (String × ObjectSchema)} {es : List Entry} {value : String}
    {schema : ObjectSchema} (first : HasFirst es d (.string value))
    (chosen : Keyed.get? variants value = some schema)
    (h : schema.Fits (fun key => key = credentialsName ∨ d = key) es) :
    Accepts (.union d variants) es
  /-- The discriminator is found out when the flow runs. -/
  | computed {d : String} {variants : List (String × ObjectSchema)} {es : List Entry}
    {a : Argument} (first : HasFirst es d a) (h : a.typeName? = none) :
    Accepts (.union d variants) es
  /-- There is no discriminator, but something that is no plain property may stand for it. -/
  | hidden {d : String} {variants : List (String × ObjectSchema)} {es : List Entry}
    (absent : hasKey es d = false) (h : hasSpread es) : Accepts (.union d variants) es

/-! ### What conforms to a schema, trusted values apart -/

section Inversion

variable {a : Argument} (ha : ¬ a.isTrusted)

include ha

theorem conforms_string_iff {values : Option (List String)} :
    Conforms (.string values) a ↔
      ∃ t, a = .string t ∧ ∀ v vs, values = some (v :: vs) → t ∈ v :: vs := by
  constructor
  · intro h
    cases h with
    | trusted h => exact absurd h ha
    | text => exact ⟨_, rfl, by simp⟩
    | unlisted => exact ⟨_, rfl, by simp⟩
    | listed h => exact ⟨_, rfl, by rintro v vs ⟨⟩; exact h⟩
  · rintro ⟨t, rfl, h⟩
    match values with
    | none => exact .text
    | some [] => exact .unlisted
    | some (v :: vs) => exact .listed (h v vs rfl)

theorem conforms_number_iff : Conforms .number a ↔ ∃ n, a = .number n := by
  constructor
  · intro h
    cases h with
    | trusted h => exact absurd h ha
    | number => exact ⟨_, rfl⟩
  · rintro ⟨n, rfl⟩
    exact .number

theorem conforms_boolean_iff : Conforms .boolean a ↔ ∃ b, a = .bool b := by
  constructor
  · intro h
    cases h with
    | trusted h => exact absurd h ha
    | boolean => exact ⟨_, rfl⟩
  · rintro ⟨b, rfl⟩
    exact .boolean

theorem conforms_literal_iff {v : Json} :
    Conforms (.literal v) a ↔ (a.toJson?).any v.same := by
  rw [Option.any_eq_true]
  constructor
  · intro h
    cases h with
    | trusted h => exact absurd h ha
    | literal hw h => exact ⟨_, hw, h⟩
  · rintro ⟨w, hw, h⟩
    exact .literal hw h

theorem conforms_array_iff {s : FieldSchema} :
    Conforms (.array s) a ↔ ∃ items, a = .array items ∧ ∀ b ∈ items, Conforms s b := by
  constructor
  · intro h
    cases h with
    | trusted h => exact absurd h ha
    | array h => exact ⟨_, rfl, h⟩
  · rintro ⟨items, rfl, h⟩
    exact .array h

theorem conforms_object_iff {schema : ObjectSchema} :
    Conforms (.object schema) a ↔ ∃ es, a = .object es ∧ schema.Fits (fun _ => False) es := by
  constructor
  · intro h
    cases h with
    | trusted h => exact absurd h ha
    | object declared known complete =>
      exact ⟨_, rfl, fun key keyNode a node s he _ => declared key keyNode a node s he,
        known.imp id fun h key keyNode a node he _ => h key keyNode a node he,
        complete.imp id fun h key hk _ => h key hk⟩
  · rintro ⟨es, rfl, declared, known, complete⟩
    exact .object (fun key keyNode a node s he => declared key keyNode a node s he id)
      (known.imp id fun h key keyNode a node he => h key keyNode a node he id)
      (complete.imp id fun h key hk => h key hk id)

theorem conforms_oneOf_iff {variants : List FieldSchema} :
    Conforms (.oneOf variants) a ↔ ∃ s ∈ variants, Conforms s a := by
  constructor
  · intro h
    cases h with
    | trusted h => exact absurd h ha
    | oneOf mem h => exact ⟨_, mem, h⟩
  · rintro ⟨s, mem, h⟩
    exact .oneOf mem h

end Inversion

/-! ### The parts of the check -/

theorem FieldSchema.check_of_trusted {a : Argument} (h : a.isTrusted) (p : Place) (t : Syntax.Tree)
    (s : FieldSchema) : s.check p t a = [] := by
  cases a <;> simp [Argument.isTrusted] at h <;> cases s <;> simp [FieldSchema.check]

theorem FieldSchema.anyAccepts_iff (p : Place) (t : Syntax.Tree) (a : Argument)
    (variants : List FieldSchema) :
    FieldSchema.anyAccepts p t a variants ↔ ∃ s ∈ variants, s.check p t a = [] := by
  induction variants with
  | nil => simp [FieldSchema.anyAccepts]
  | cons s rest ih => simp [FieldSchema.anyAccepts, ih]

theorem FieldSchema.checkNamed_eq (p : Place) (key : String) (t : Syntax.Tree) (a : Argument)
    (properties : List (String × FieldSchema)) :
    FieldSchema.checkNamed p key t a properties =
      (Keyed.get? properties key).map (FieldSchema.check (p.property key) t a) := by
  induction properties with
  | nil => simp [FieldSchema.checkNamed]
  | cons e rest ih =>
    obtain ⟨k, s⟩ := e
    by_cases h : k = key
    · simp [FieldSchema.checkNamed, Keyed.get?, h]
    · simp [FieldSchema.checkNamed, ih, Keyed.get?, h]

/-! ### Places -/

theorem Place.path_property_ne (p : Place) {key : String} (h : p.path ≠ "" ∨ key ≠ "") :
    (p.property key).path ≠ "" := by
  unfold Place.property Place.join
  by_cases hp : p.path = ""
  · simpa [hp] using h
  · simp [hp, String.append_eq_empty_iff]

theorem Place.path_element_ne (p : Place) (i : Nat) : (p.element i).path ≠ "" := by
  simp [Place.element, String.append_eq_empty_iff]

/-! ### Objects -/

/-- **The check of entries decides whether they fit**, once the check of each declared field that is
not exempt decides whether its value conforms. -/
theorem ObjectSchema.check_eq_nil_iff {p : Place} {discriminator : Option String}
    {schema : ObjectSchema}
    (ih : ∀ e ∈ schema.properties, ¬ isExempt p discriminator e.1 → ∀ t a,
      e.2.check (p.property e.1) t a = [] ↔ Conforms e.2 a)
    (anchor : Syntax.Tree) (es : List Entry) :
    ObjectSchema.check p discriminator anchor es schema = [] ↔
      schema.Fits (fun key => isExempt p discriminator key) es := by
  obtain ⟨name, properties, required, additional⟩ := schema
  simp only [ObjectSchema.check, List.append_eq_nil_iff, List.flatMap_eq_nil_iff,
    FieldSchema.checkNamed_eq]
  constructor
  · rintro ⟨present, absent⟩
    refine ⟨?_, ?_, ?_⟩
    · intro key keyNode a node s he hx hs
      have h := present _ he
      simp only [hx, if_false, show Keyed.get? properties key = some s from hs,
        Option.map_some] at h
      exact (ih _ (Keyed.mem_of_get? hs) hx node a).1 h
    · rw [Classical.or_iff_not_imp_left]
      intro hadd key keyNode a node he hx
      have h := present _ he
      cases hs : Keyed.get? properties key with
      | some s => simp [property?, ObjectSchema.properties, hs]
      | none => simp_all [ObjectSchema.additional]
    · rw [Classical.or_iff_not_imp_left]
      intro hspread key (hk : key ∈ required) hx
      simp_all
  · rintro ⟨declared, known, complete⟩
    refine ⟨?_, ?_⟩
    · intro e he
      cases e with
      | spread t => rfl
      | other t => rfl
      | property key keyNode a node =>
        by_cases hx : isExempt p discriminator key
        · simp [hx]
        · simp only [hx, Bool.false_eq_true, if_false]
          cases hs : Keyed.get? properties key with
          | some s =>
            exact (ih _ (Keyed.mem_of_get? hs) hx node a).2 (declared key keyNode a node s he hx hs)
          | none =>
            rcases known with h | h
            · simp_all [ObjectSchema.additional]
            · have := h key keyNode a node he hx
              simp [property?, ObjectSchema.properties, hs] at this
    · rcases complete with h | h
      · simp [h]
      · simp_all [ObjectSchema.required]

/-! ### Values -/

theorem FieldSchema.check_array_eq_nil_iff (p : Place) (t : Syntax.Tree) (s : FieldSchema)
    (items : List Argument) :
    (FieldSchema.array s).check p t (.array items) = [] ↔
      ∀ i, ∀ h : i < items.length, s.check (p.element i) t items[i] = [] := by
  simp only [FieldSchema.check, List.flatten_eq_nil_iff, List.mem_mapIdx]
  constructor
  · intro h i hi
    exact h _ ⟨i, hi, rfl⟩
  · rintro h _ ⟨i, hi, rfl⟩
    exact h i hi

/-- **Below the top, the check of a value decides whether it conforms.** -/
theorem FieldSchema.check_eq_nil_iff (s : FieldSchema) : ∀ p : Place, p.path ≠ "" → ∀ t a,
    s.check p t a = [] ↔ Conforms s a := by
  induction s using FieldSchema.induction with
  | any =>
    intro p _ t a
    exact iff_of_true (by simp [FieldSchema.check]) .any
  | number =>
    intro p _ t a
    by_cases ha : a.isTrusted
    · exact iff_of_true (check_of_trusted ha p t _) (.trusted ha)
    · rw [conforms_number_iff ha]
      cases a <;> simp_all [FieldSchema.check, Argument.isTrusted]
  | boolean =>
    intro p _ t a
    by_cases ha : a.isTrusted
    · exact iff_of_true (check_of_trusted ha p t _) (.trusted ha)
    · rw [conforms_boolean_iff ha]
      cases a <;> simp_all [FieldSchema.check, Argument.isTrusted]
  | string values =>
    intro p _ t a
    by_cases ha : a.isTrusted
    · exact iff_of_true (check_of_trusted ha p t _) (.trusted ha)
    · rw [conforms_string_iff ha]
      cases a with
      | string text =>
        rcases values with _ | _ | ⟨v, vs⟩
        · simp [FieldSchema.check]
        · simp [FieldSchema.check]
        · by_cases h : text ∈ v :: vs <;> simp_all [FieldSchema.check]
      | _ => simp_all [FieldSchema.check, Argument.isTrusted]
  | literal value =>
    intro p _ t a
    by_cases ha : a.isTrusted
    · exact iff_of_true (check_of_trusted ha p t _) (.trusted ha)
    · rw [conforms_literal_iff ha]
      cases a <;> simp_all [FieldSchema.check, Argument.isTrusted]
  | array items ih =>
    intro p _ t a
    by_cases ha : a.isTrusted
    · exact iff_of_true (check_of_trusted ha p t _) (.trusted ha)
    · rw [conforms_array_iff ha]
      cases a with
      | array elements =>
        rw [check_array_eq_nil_iff]
        simp only [ih _ (p.path_element_ne _), Argument.array.injEq, exists_eq_left',
          List.forall_mem_iff_forall_getElem]
      | _ => simp_all [FieldSchema.check, Argument.isTrusted]
  | object schema ih =>
    intro p hp t a
    by_cases ha : a.isTrusted
    · exact iff_of_true (check_of_trusted ha p t _) (.trusted ha)
    · rw [conforms_object_iff ha]
      cases a with
      | object entries =>
        -- Nothing is exempt below the top.
        let q : Place := { p with typeName := schema.name.getD p.typeName }
        have hx : (fun key => (isExempt q none key : Prop)) = fun _ => False := by
          funext key
          simp [isExempt, q, hp]
        have h := @ObjectSchema.check_eq_nil_iff q none schema
          (fun e he _ => ih e he _ (q.path_property_ne (.inl hp))) t entries
        rw [hx] at h
        simpa [FieldSchema.check] using h
      | _ => simp_all [FieldSchema.check, Argument.isTrusted]
  | oneOf variants ih =>
    intro p hp t a
    by_cases ha : a.isTrusted
    · exact iff_of_true (check_of_trusted ha p t _) (.trusted ha)
    · have h : (FieldSchema.oneOf variants).check p t a = [] ↔
          FieldSchema.anyAccepts p t a variants := by
        cases a <;> simp_all [FieldSchema.check, Argument.isTrusted]
      rw [h, FieldSchema.anyAccepts_iff, conforms_oneOf_iff ha]
      exact exists_congr fun s => and_congr_right fun hs => ih s hs p hp t a

/-! ### Contracts -/

/-- The objects that a contract describes. -/
def Contract.objects : Contract → List ObjectSchema
  | .object schema => [schema]
  | .union _ variants => variants.map (·.2)

/-- No field at the top of a contract lacks a name. -/
def Contract.FieldsNamed (c : Contract) : Prop := ∀ o ∈ c.objects, ∀ e ∈ o.properties, e.1 ≠ ""

instance (c : Contract) : Decidable c.FieldsNamed :=
  inferInstanceAs (Decidable (∀ o ∈ c.objects, ∀ e ∈ o.properties, e.1 ≠ ""))

/-- At the top, the check of entries decides whether they fit, the credentials and the discriminator
being exempt. -/
theorem ObjectSchema.check_top_eq_nil_iff {p : Place} (hp : p.path = "")
    (discriminator : Option String) {schema : ObjectSchema}
    (named : ∀ e ∈ schema.properties, e.1 ≠ "") (anchor : Syntax.Tree) (es : List Entry) :
    ObjectSchema.check p discriminator anchor es schema = [] ↔
      schema.Fits (fun key => key = credentialsName ∨ discriminator = some key) es := by
  rw [ObjectSchema.check_eq_nil_iff (fun e he _ =>
    FieldSchema.check_eq_nil_iff e.2 _ (p.path_property_ne (.inr (named e he)))) anchor es]
  simp [isExempt, hp]

theorem hasKey_eq_false_iff {es : List Entry} {key : String} :
    hasKey es key = false ↔ es.find? (fun e => e.key? = some key) = none := by
  simp [hasKey]

/-- Without a discriminator, a union accepts entries of which one may stand for it. -/
theorem Contract.accepts_union_iff_of_absent {d : String} {variants : List (String × ObjectSchema)}
    {es : List Entry} (h : es.find? (fun e => e.key? = some d) = none) :
    (Contract.union d variants).Accepts es ↔ hasSpread es := by
  constructor
  · rintro (_ | ⟨⟨e, he, _⟩, _, _⟩ | ⟨⟨e, he, _⟩, _⟩ | ⟨_, hs⟩)
    · simp [h] at he
    · simp [h] at he
    · exact hs
  · intro hs
    exact .hidden (hasKey_eq_false_iff.2 h) hs

/-- With a discriminator, a union accepts what the variant takes that it names, and anything when it
is found out later. -/
theorem Contract.accepts_union_iff_of_first {d : String} {variants : List (String × ObjectSchema)}
    {es : List Entry} {a : Argument} (h : HasFirst es d a) :
    (Contract.union d variants).Accepts es ↔
      a.typeName? = none ∨ ∃ value schema, a = .string value ∧
        Keyed.get? variants value = some schema ∧
          schema.Fits (fun key => key = credentialsName ∨ d = key) es := by
  obtain ⟨e, he, hv⟩ := h
  -- There is only one first property.
  have unique : ∀ b, HasFirst es d b → a = b := by
    rintro b ⟨e', he', hv'⟩
    obtain rfl : e = e' := by simpa [he] using he'
    simpa [hv] using hv'
  constructor
  · rintro (_ | ⟨first, chosen, hs⟩ | ⟨first, hn⟩ | ⟨absent, _⟩)
    · exact .inr ⟨_, _, unique _ first, chosen, hs⟩
    · exact .inl (unique _ first ▸ hn)
    · simp [hasKey_eq_false_iff.1 absent] at he
  · rintro (hn | ⟨value, schema, rfl, chosen, hs⟩)
    · exact .computed ⟨e, he, hv⟩ hn
    · exact .variant ⟨e, he, hv⟩ chosen hs

/-- The check of a union finds no fault exactly with what the union accepts. -/
theorem Contract.checkUnion_eq_nil_iff {p : Place} (hp : p.path = "") {d : String}
    {variants : List (String × ObjectSchema)} (named : (Contract.union d variants).FieldsNamed)
    (anchor : Syntax.Tree) (es : List Entry) :
    Contract.checkUnion p d variants anchor es = [] ↔ (Contract.union d variants).Accepts es := by
  unfold Contract.checkUnion Argument.property?
  cases he : es.find? (fun e => e.key? = some d) with
  | none =>
    rw [accepts_union_iff_of_absent he]
    simp [Argument.entries, he]
  | some e =>
    cases e with
    | spread t => simpa [Entry.key?] using List.find?_some he
    | other t => simpa [Entry.key?] using List.find?_some he
    | property key keyNode a node =>
      rw [accepts_union_iff_of_first ⟨_, he, rfl⟩]
      simp only [Argument.entries, he]
      cases a with
      | string value =>
        cases hs : Keyed.get? variants value with
        | none => simp [Argument.typeName?, hs]
        | some schema =>
          have hmem : schema ∈ (Contract.union d variants).objects :=
            List.mem_map.2 ⟨_, Keyed.mem_of_get? hs, rfl⟩
          have h := ObjectSchema.check_top_eq_nil_iff
            (p := { p with typeName := schema.name.getD p.typeName }) hp (some d)
            (named schema hmem) anchor es
          simp only [Option.some.injEq] at h
          simp [Argument.typeName?, hs, h]
      | _ => simp [Argument.typeName?]

/-- **The check of parameters decides conformance.**  Whatever the class and the type are called and
wherever the literal stands, nothing is found at its entries exactly if they conform to the
contract. -/
theorem Contract.check_eq_nil_iff_accepts (c : Contract) (named : c.FieldsNamed)
    (className typeName : String) (anchor : Syntax.Tree) (es : List Entry) :
    c.check ⟨className, "", typeName⟩ anchor es = [] ↔ c.Accepts es := by
  cases c with
  | object schema =>
    have h := ObjectSchema.check_top_eq_nil_iff (p := ⟨className, "", typeName⟩) rfl none
      (named schema (by simp [objects])) anchor es
    simp only [reduceCtorEq, or_false] at h
    rw [Contract.check, h]
    constructor
    · exact .object
    · rintro ⟨h⟩
      exact h
  | union d variants =>
    exact checkUnion_eq_nil_iff rfl named anchor es

/-- Messages to a channel: who gets them is one address or several, each with a literal mark. -/
def messageContract : Contract :=
  .union "operation"
    [("send", ⟨some "Message",
      [("to", .oneOf [.string (some ["all", "none"]),
          .array (.object ⟨none, [("mark", .literal (.bool true))], ["mark"], false⟩)]),
        ("text", .string none)], ["to", "text", "operation"], false⟩),
     ("list", ⟨none, [], [], true⟩)]

/-- A message to two addresses whose text is computed. -/
def messageEntries : List Entry :=
  let entry := fun key a => Entry.property key default a default
  [entry "operation" (.string "send"), entry "text" .computed, entry "credentials" (.string "x"),
    entry "to" (.array [.object [entry "mark" (.bool true)], .reference])]

theorem messageEntries_accepted :
    messageContract.FieldsNamed ∧ messageContract.Accepts messageEntries :=
  ⟨by decide, (messageContract.check_eq_nil_iff_accepts (by decide) "Slack" "SlackParams" default
    messageEntries).1 (by rfl)⟩

end FlowAnalysis
