import FlowAnalysis.Proofs.StoredContracts
import FlowAnalysis.Record
import Mathlib.Data.List.Perm.Basic

/-!
# Records that are stored as JSON

Records are written under their numbers in decimal digits and read back in the order of the numbers.
Together with definitions they are what is stored between one run and the next.

## Main definitions

* `Record.Proper`, `Records.Proper` — numbers that fit into their words, and records in the order of
  their numbers.

## Main results

* `Records.number?_toString` — a number is read off its digits.
* `Records.ofJson?_of_perm` — **records are read back, whatever the order of their entries.**
* `stored_read_back` — **definitions and records that are stored are read back, and reading and
  storing again changes nothing.**
-/

namespace FlowAnalysis

open Json (Fields fields? tagged? formOf? asString? asBool? asOption? asWord? asNat? asSize? asList?)

/-! ### Numbers -/

namespace Records

/-- Digits are read as their number. -/
theorem foldl_eq_ofDigitChars (digits : List Char) (n : Nat) :
    digits.foldl (fun n c => n * 10 + (c.toNat - 48)) n = Nat.ofDigitChars 10 digits n := by
  rw [Nat.ofDigitChars_eq_foldl]
  congr 1
  funext n c
  rw [Nat.mul_comm]
  rfl

/-- The digits of a number begin with zero only if it is zero. -/
theorem head?_toDigits {n : Nat} (hn : n ≠ 0) : (Nat.toDigits 10 n).head? ≠ some '0' := by
  induction n using Nat.strongRecOn with
  | ind n ih =>
    rcases Nat.lt_or_ge n 10 with hlt | hge
    · rw [Nat.toDigits_of_lt_base hlt]
      simpa using hn
    · rw [Nat.toDigits_of_base_le (by decide) hge,
        List.head?_append_of_ne_nil _ Nat.toDigits_ne_nil]
      exact ih (n / 10) (by omega) (by omega)

/-- **A number is read off its digits.** -/
theorem number?_toString {n : Nat} (hn : n < Nat.pow 2 32) : number? (toString n) = some n := by
  have hdigits : (Nat.toDigits 10 n).all Char.isDigit :=
    List.all_eq_true.2 fun c hc => Nat.isDigit_of_mem_toDigits (by decide) (by decide) hc
  have hvalue : (Nat.toDigits 10 n).foldl (fun n c => n * 10 + (c.toNat - 48)) 0 = n := by
    rw [foldl_eq_ofDigitChars, Nat.ofDigitChars_ten_toDigits]
  have hhead : (Nat.toDigits 10 n).head? ≠ some '0' ∨ Nat.toDigits 10 n = ['0'] := by
    rcases Nat.eq_zero_or_pos n with rfl | hpos
    · exact .inr rfl
    · exact .inl (head?_toDigits (by omega))
  rw [number?, Nat.toString_eq_ofList_toDigits, String.toList_ofList, hvalue, if_pos]
  simp only [Bool.and_eq_true, Bool.or_eq_true, decide_eq_true_eq]
  exact ⟨⟨⟨Nat.toDigits_ne_nil, hdigits⟩, hhead⟩, hn⟩

end Records

theorem Json.asNat?_nat {bound n : Nat} (h : n < bound) : asNat? bound (nat n) = some n :=
  if_pos h

/-! ### Records -/

/-- The line and the column of a place fit into their words. -/
structure Location.Proper (l : Location) : Prop where
  line : l.line < Nat.pow 2 64
  column : l.column < Nat.pow 2 64

/-- Both ends of a construction are proper places. -/
structure Extent.Proper (e : Extent) : Prop where
  start : e.start.Proper
  stop : e.stop.Proper

/-- A literal is a value as it is held. -/
def ParameterValue.Proper : ParameterValue → Prop
  | literal v => v.Proper
  | expression _ => True

/-- The numbers in a record fit into their words, and its literals are values as they are held. -/
structure Record.Proper (r : Record) : Prop where
  number : r.number < Nat.pow 2 32
  extent : r.extent.Proper
  parameters : ∀ p ∈ r.parameters, p.value.Proper

/-- The records are proper and stand under ascending numbers that fit into their words. -/
structure Records.Proper (rs : Records) : Prop where
  ordered : rs.Pairwise fun e e' => e.1 < e'.1
  numbers : ∀ e ∈ rs, e.1 < Nat.pow 2 32
  records : ∀ e ∈ rs, e.2.Proper

theorem Location.ofJson?_toJson {l : Location} (h : l.Proper) : ofJson? l.toJson = some l := by
  have hline : asSize? (Json.nat l.line) = some l.line := Json.asNat?_nat h.line
  have hcolumn : asSize? (Json.nat l.column) = some l.column := Json.asNat?_nat h.column
  simp [ofJson?, toJson, fields?, Fields.required, Fields.get?, Keyed.get?_cons, hline, hcolumn]

theorem Extent.ofJson?_toJson {e : Extent} (h : e.Proper) : ofJson? e.toJson = some e := by
  simp [ofJson?, toJson, fields?, Fields.required, Fields.get?, Keyed.get?_cons,
    Location.ofJson?_toJson h.start, Location.ofJson?_toJson h.stop]

theorem ParameterKind.asWord?_toWord (k : ParameterKind) :
    asWord? words (.string k.toWord) = some k := by
  cases k <;> rfl

theorem ParameterValue.ofJson?_toJson {v : ParameterValue} (h : v.Proper) :
    ofJson? v.toJson = some v := by
  cases v with
  | literal v =>
    have husable : (literal v).toJson.usable := by
      simp [toJson, Json.usable, Json.usableEntries, Json.Proper.usable h]
    rw [ofJson?, if_pos husable]
    simp [toJson, tagged?, formOf?, fields?, Fields.required, Fields.get?, Keyed.get?_cons,
      Json.asAny?_of_proper h]
  | expression source =>
    have husable : (expression source).toJson.usable := rfl
    rw [ofJson?, if_pos husable]
    simp [toJson, tagged?, formOf?, fields?, Fields.required, Fields.get?, Keyed.get?_cons, asString?]

theorem Parameter.ofJson?_toJson {p : Parameter} (h : p.value.Proper) :
    ofJson? p.toJson = some p := by
  simp [ofJson?, toJson, fields?, Fields.required, Fields.get?, Keyed.get?_cons, asString?, asBool?,
    ParameterValue.ofJson?_toJson h, ParameterKind.asWord?_toWord]

theorem BubbleKind.asOption?_toJson (k : BubbleKind) :
    asOption? (asWord? words) k.toJson = some (some k) := by
  cases k <;> rfl

/-- **A record is read back.** -/
theorem Record.ofJson?_toJson {r : Record} (h : r.Proper) : ofJson? r.toJson = some r := by
  have hnumber : asNat? (Nat.pow 2 32) (Json.nat r.number) = some r.number :=
    Json.asNat?_nat h.number
  have hextent := Extent.ofJson?_toJson h.extent
  have hparameters : asList? Parameter.ofJson? (.array (r.parameters.map Parameter.toJson)) =
      some r.parameters :=
    Json.asList?_array fun p hp => Parameter.ofJson?_toJson (h.parameters p hp)
  rw [ofJson?, toJson, Json.fields?_object ?_ (by decide)]
  · generalize Nat.pow 2 32 = bound at *
    simp [Fields.required, Fields.nullable_eq, Fields.get?, Keyed.get?_append, Keyed.get?_cons,
      Json.get?_optionalEntry, Json.asString?_string, Json.elim_asOption? Json.asOption?_string,
      Json.elim_asOption? BubbleKind.asOption?_toJson, hnumber, hextent, hparameters]
  · cases r.displayName <;> cases r.kind <;> cases r.operation <;> exact of_decide_eq_true rfl

namespace Records

variable {rs : Records}

/-- The entries that records are written as. -/
def toEntries (rs : Records) : List (String × Json) := rs.map fun e => (toString e.1, e.2.toJson)

theorem toJson_eq (rs : Records) : rs.toJson = .object rs.toEntries := rfl

/-- Ascending numbers are in order, whatever the order of the records was. -/
theorem Proper.sorted_eq (h : rs.Proper) {es : List (Nat × Record)} (hperm : es.Perm rs) :
    Keyed.sorted Keyed.natLt es = rs := by
  have hnodup : (rs.map (·.1)).Nodup := (List.pairwise_map.2 h.ordered).imp Nat.ne_of_lt
  have hsorted : Keyed.sorted Keyed.natLt rs = rs :=
    Keyed.strict_natLt.sorted_of_pairwise (h.ordered.imp decide_eq_true)
  exact (Keyed.strict_natLt.sorted_eq_of_perm hperm.symm hnodup).symm.trans hsorted

/-- **Records are read back**, whatever the order of their entries is. -/
theorem ofJson?_of_perm (h : rs.Proper) {entries : List (String × Json)}
    (hentries : entries.Perm rs.toEntries) : ofJson? (.object entries) = some rs := by
  obtain ⟨es, rfl, hperm⟩ : Relation.Comp
      (· = List.map (fun e : Nat × Record => (toString e.1, e.2.toJson)) ·) List.Perm entries rs := by
    rw [List.eq_map_comp_perm]
    exact hentries
  have hread : ((es.map fun e => (toString e.1, e.2.toJson)).mapM fun e => do
      return (← number? e.1, ← Record.ofJson? e.2)) = some es :=
    Json.mapM_map fun e he => by
      have he := hperm.mem_iff.1 he
      simp only [number?_toString (h.numbers e he), Record.ofJson?_toJson (h.records e he)]
      rfl
  rw [ofJson?, hread]
  exact congrArg some (h.sorted_eq hperm)

end Records

/-! ### What is stored -/

/-- **What is stored is read back.**  A definition is written as a value off which it is read as it
was, with all entries in their order, and so are the records, for which it does not even matter in
what order their entries are kept.  A definition that was read off any value at all is written and
read again without a change.  Values that are nested more deeply than the limit are refused, so the
limit must leave room for what is written. -/
theorem stored_read_back :
    (∀ d : Definition, d.Proper → ∀ limit, d.toJson.depth ≤ limit →
        Definition.ofJson? limit d.toJson = some d) ∧
      (∀ rs : Records, rs.Proper → Records.ofJson? rs.toJson = some rs ∧
        ∀ entries, entries.Perm rs.toEntries → Records.ofJson? (.object entries) = some rs) ∧
      ∀ limit v d, Definition.ofJson? limit v = some d →
        ∀ limit', d.toJson.depth ≤ limit' → Definition.ofJson? limit' d.toJson = some d := by
  refine ⟨fun d hd limit hlimit => ?_, fun rs hrs => ?_, fun limit v d hd limit' hlimit => ?_⟩
  · exact Definition.ofJson?_toJson hd hlimit
  · refine ⟨?_, fun entries => Records.ofJson?_of_perm hrs⟩
    rw [Records.toJson_eq]
    exact Records.ofJson?_of_perm hrs (.refl _)
  · exact Definition.ofJson?_toJson (Definition.proper_of_ofJson? hd) hlimit

section Postman

/-- A definition with a schema of each form, in an order of its own. -/
def postmanDefinition : Definition where
  className := "Postman"
  bubbleName := "postman"
  displayName := some "Postman"
  kind := .tool
  contract := .union "operation"
    [("send", ⟨some "SendParams",
      [("to", .array (.oneOf
          [.string none, .literal (.object [("box", .nat 7), ("home", .bool true)])])),
        ("body", .object ⟨none,
          [("text", .string (some ["plain", "marked"])), ("pages", .number)], ["text"], true⟩)],
      ["to", "body"], false⟩),
    ("discard", ⟨none, [("unread", .boolean), ("reason", .any)], [], false⟩)]
  credentials := ⟨["POST_CRED"], [("send", ["POST_CRED", "STAMP_CRED"]), ("discard", [])]⟩

/-- Two records; the one with the greater number has the lesser key as a text. -/
def postmanRecords : Records :=
  [(2, { number := 2, variableName := "postman", className := "Postman"
         displayName := some "Postman", kind := some .tool, operation := none
         extent := ⟨⟨3, 10⟩, ⟨3, 40⟩⟩
         parameters := [⟨"to", .literal (.array [.string "a@b.c"]), .array, true⟩,
           ⟨"body", .expression "makeBody()", .expression, false⟩] }),
    (10, { number := 10, variableName := "_anonymous_Clerk_10", className := "Clerk"
           displayName := none, kind := none, operation := some "file"
           extent := ⟨⟨5, 4⟩, ⟨6, 2⟩⟩, parameters := [] })]

/-- A definition in a short form: a record as an array of its fields, a tag behind its entry, and
fields that are left out. -/
def clerkValue : Json :=
  .object [("params", .array [.string "object", .null, .object [("page", .object
      [("value", .object [("to", .nat 9), ("from", .null)]), ("type", .string "literal")])]]),
    ("bubble_name", .string "clerk"), ("class_name", .string "Clerk")]

/-- What the short form says. -/
def clerkDefinition : Definition where
  className := "Clerk"
  bubbleName := "clerk"
  displayName := none
  kind := .service
  contract := .object ⟨none,
    [("page", .literal (.object [("from", .null), ("to", .nat 9)]))], [], false⟩
  credentials := .none

theorem postmanDefinition_proper : postmanDefinition.Proper where
  contract := by
    have haddress : (Json.object [("box", .nat 7), ("home", .bool true)]).Proper :=
      ⟨rfl, List.pairwise_pair.2 (by decide),
        by simp [Json.OrderedEntries, Json.Ordered, Json.nat, Json.int]⟩
    have hto : (FieldSchema.array (.oneOf
        [.string none, .literal (.object [("box", .nat 7), ("home", .bool true)])])).Proper :=
      .array (.oneOf (by simpa using ⟨.string none, .literal haddress⟩))
    have hbody : (FieldSchema.object ⟨none, [("text", .string (some ["plain", "marked"])),
        ("pages", .number)], ["text"], true⟩).Proper :=
      .object (by decide) (by simpa [ObjectSchema.properties] using ⟨.string _, .number⟩)
    refine .union _ (by decide) (List.forall_mem_cons.2 ⟨⟨by decide, ?_⟩,
      List.forall_mem_cons.2 ⟨⟨by decide, ?_⟩, List.forall_mem_nil _⟩⟩)
    · simpa [ObjectSchema.properties] using ⟨hto, hbody⟩
    · simpa [ObjectSchema.properties] using ⟨.boolean, .any⟩
  nodup_operations := by decide

theorem postmanRecords_proper : postmanRecords.Proper where
  ordered := by simp [postmanRecords]
  numbers := by simp [postmanRecords]
  records := by
    have hto : (Json.array [.string "a@b.c"]).Proper := ⟨rfl, trivial, trivial⟩
    refine List.forall_mem_cons.2 ⟨⟨by decide, ⟨⟨by decide, by decide⟩, by decide, by decide⟩, ?_⟩,
      List.forall_mem_cons.2 ⟨⟨by decide, ⟨⟨by decide, by decide⟩, by decide, by decide⟩,
        List.forall_mem_nil _⟩, List.forall_mem_nil _⟩⟩
    simpa [ParameterValue.Proper] using hto

theorem stored_read_back_postman :
    Definition.ofJson? 10 postmanDefinition.toJson = some postmanDefinition ∧
      Records.ofJson? postmanRecords.toJson = some postmanRecords ∧
      Records.ofJson? (.object postmanRecords.toEntries.reverse) = some postmanRecords ∧
      Definition.ofJson? 5 clerkValue = some clerkDefinition ∧
      Definition.ofJson? 6 clerkDefinition.toJson = some clerkDefinition := by
  have hclerk : Definition.ofJson? 5 clerkValue = some clerkDefinition := rfl
  obtain ⟨hread, hreadAny⟩ := stored_read_back.2.1 postmanRecords postmanRecords_proper
  exact ⟨stored_read_back.1 postmanDefinition postmanDefinition_proper 10 (by decide), hread,
    hreadAny _ (List.reverse_perm _), hclerk,
    stored_read_back.2.2 5 clerkValue clerkDefinition hclerk 6 (by decide)⟩

end Postman

end FlowAnalysis
