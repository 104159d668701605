import FlowAnalysis.Proofs.Conformance
import Mathlib.Data.List.Forall2

/-!
# Parameters that are put off

Values of a literal object, at any depth, may be put off until the flow runs: a reference or a
computed expression stands in their place.  The check of parameters does not find more then, as long
as nothing is put off inside of a value that a contract asks for as a whole.

## Main definitions

* `Argument.Deferred`, `Entry.Deferred` — a value with parts that are put off, where some values are
  left whole.
* `Contract.literals` — the values that a contract asks for.

## Main results

* `FieldSchema.length_check_argument_le`, `ObjectSchema.length_check_entries_le` — one schema does
  not find more.
* **`Contract.length_check_le`** — nor does a contract.
* `FieldSchema.exists_deferred_lt` — a value that is asked for as a whole is not found any more
  once a part of it is put off.
-/

namespace FlowAnalysis

open Syntax

/-! ### Values with parts put off -/

mutual

/-- A value of which parts, or the whole, are put off.  What is to be left whole is not put off in
part. -/
inductive Argument.Deferred (whole : Argument → Prop) : Argument → Argument → Prop
  | refl (a : Argument) : Argument.Deferred whole a a
  | reference (a : Argument) : Argument.Deferred whole a .reference
  | computed (a : Argument) : Argument.Deferred whole a .computed
  | array {as bs : List Argument} (h : ¬ whole (.array as))
    (items : List.Forall₂ (Argument.Deferred whole) as bs) :
    Argument.Deferred whole (.array as) (.array bs)
  | object {es fs : List Entry} (h : ¬ whole (.object es))
    (entries : List.Forall₂ (Entry.Deferred whole) es fs) :
    Argument.Deferred whole (.object es) (.object fs)

/-- An entry of whose value parts, or the whole, are put off; it may stand elsewhere then. -/
inductive Entry.Deferred (whole : Argument → Prop) : Entry → Entry → Prop
  | property {key : String} {a b : Argument} (keyNode keyNode' node node' : Tree)
    (value : Argument.Deferred whole a b) :
    Entry.Deferred whole (.property key keyNode a node) (.property key keyNode' b node')
  | spread (t u : Tree) : Entry.Deferred whole (.spread t) (.spread u)
  | other (t u : Tree) : Entry.Deferred whole (.other t) (.other u)

end

/-- Whether a value is an array or an object that is not empty. -/
def Argument.hasParts : Argument → Bool
  | .array as => !as.isEmpty
  | .object es => !es.isEmpty
  | _ => false

mutual

/-- The values that a schema asks for. -/
def FieldSchema.literals : FieldSchema → List Json
  | .literal v => [v]
  | .array items => items.literals
  | .object schema => schema.literals
  | .oneOf variants => FieldSchema.literalsOfAll variants
  | .string _ | .number | .boolean | .any => []

/-- The values that several schemas ask for. -/
def FieldSchema.literalsOfAll : List FieldSchema → List Json
  | [] => []
  | s :: rest => s.literals ++ FieldSchema.literalsOfAll rest

/-- The values that the schemas of fields ask for. -/
def FieldSchema.literalsOfNamed : List (String × FieldSchema) → List Json
  | [] => []
  | (_, s) :: rest => s.literals ++ FieldSchema.literalsOfNamed rest

/-- The values that the schema of an object asks for. -/
def ObjectSchema.literals : ObjectSchema → List Json
  | ⟨_, properties, _, _⟩ => FieldSchema.literalsOfNamed properties

end

/-- The values that a contract asks for. -/
def Contract.literals (c : Contract) : List Json := c.objects.flatMap ObjectSchema.literals

/-- An argument has one of some values. -/
def Argument.IsAmong (values : List Json) (a : Argument) : Prop :=
  ∃ v ∈ values, (a.toJson?).any v.same

theorem Argument.IsAmong.mono {values others : List Json} {a : Argument}
    (h : values ⊆ others) (ha : a.IsAmong values) : a.IsAmong others := by
  obtain ⟨v, hv, hsame⟩ := ha
  exact ⟨v, h hv, hsame⟩

theorem FieldSchema.mem_literals_oneOf {variants : List FieldSchema} {s : FieldSchema}
    (hs : s ∈ variants) {v : Json} (hv : v ∈ s.literals) :
    v ∈ (FieldSchema.oneOf variants).literals := by
  show v ∈ FieldSchema.literalsOfAll variants
  induction variants with
  | nil => cases hs
  | cons s' rest ih =>
    rw [FieldSchema.literalsOfAll, List.mem_append]
    rcases List.mem_cons.1 hs with rfl | hs
    · exact .inl hv
    · exact .inr (ih hs)

theorem ObjectSchema.mem_literals {schema : ObjectSchema} {e : String × FieldSchema}
    (he : e ∈ schema.properties) {v : Json} (hv : v ∈ e.2.literals) : v ∈ schema.literals := by
  obtain ⟨name, properties, required, additional⟩ := schema
  show v ∈ FieldSchema.literalsOfNamed properties
  have hmem : e ∈ properties := he
  clear he
  induction properties with
  | nil => cases hmem
  | cons e' rest ih =>
    obtain ⟨key, s⟩ := e'
    rw [FieldSchema.literalsOfNamed, List.mem_append]
    rcases List.mem_cons.1 hmem with rfl | hmem
    · exact .inl hv
    · exact .inr (ih hmem)

variable {whole : Argument → Prop}

namespace Argument.Deferred

variable {a b : Argument}

/-- A value that is not trusted in the end is what it was, or has parts that need not be left
whole. -/
theorem cases_of_deferred (h : a.Deferred whole b) :
    b.isTrusted ∨ b = a ∨ a.hasParts ∧ ¬ whole a := by
  cases h with
  | refl => exact .inr (.inl rfl)
  | reference => exact .inl rfl
  | computed => exact .inl rfl
  | array h items =>
    cases items with
    | nil => exact .inr (.inl rfl)
    | cons => exact .inr (.inr ⟨rfl, h⟩)
  | object h entries =>
    cases entries with
    | nil => exact .inr (.inl rfl)
    | cons => exact .inr (.inr ⟨rfl, h⟩)

end Argument.Deferred

theorem Entry.Deferred.refl (e : Entry) : e.Deferred whole e := by
  cases e with
  | property key keyNode a node => exact .property _ _ _ _ (.refl a)
  | spread t => exact .spread t t
  | other t => exact .other t t

/-! ### Keys -/

section Entries

variable {es fs : List Entry} (h : List.Forall₂ (Entry.Deferred whole) es fs)

theorem Entry.Deferred.key?_eq {e f : Entry} (h : e.Deferred whole f) : f.key? = e.key? := by
  cases h <;> rfl

include h

/-- The keys are left as they are. -/
theorem keys_eq_of_deferred : fs.map Entry.key? = es.map Entry.key? := by
  induction h with
  | nil => rfl
  | cons he _ ih => rw [List.map_cons, List.map_cons, he.key?_eq, ih]

theorem hasSpread_eq_of_deferred : hasSpread fs = hasSpread es := by
  have hkeys : ∀ gs : List Entry, hasSpread gs = (gs.map Entry.key?).any Option.isNone :=
    fun gs => by
      rw [List.any_map]
      rfl
  rw [hkeys, hkeys, keys_eq_of_deferred h]

theorem hasKey_eq_of_deferred (key : String) : hasKey fs key = hasKey es key := by
  have hkeys : ∀ gs : List Entry, hasKey gs key = (gs.map Entry.key?).any (· = some key) :=
    fun gs => by
      rw [List.any_map]
      rfl
  rw [hkeys, hkeys, keys_eq_of_deferred h]

/-- The first property with a key is put off, if anything. -/
theorem find?_of_deferred (key : String) :
    (es.find? (fun e => e.key? = some key) = none ∧
        fs.find? (fun e => e.key? = some key) = none) ∨
      ∃ e f, es.find? (fun e => e.key? = some key) = some e ∧
        fs.find? (fun e => e.key? = some key) = some f ∧ e.Deferred whole f := by
  induction h with
  | nil => exact .inl ⟨rfl, rfl⟩
  | @cons e f es fs he _ ih =>
    by_cases hkey : e.key? = some key
    · refine .inr ⟨e, f, ?_, ?_, he⟩
      · rw [List.find?_cons_of_pos (by simpa using hkey)]
      · rw [List.find?_cons_of_pos (by simpa [he.key?_eq] using hkey)]
    · rw [List.find?_cons_of_neg (by simpa using hkey),
        List.find?_cons_of_neg (by simpa [he.key?_eq] using hkey)]
      exact ih

end Entries

/-! ### Values -/

/-- A check that finds at most one fault finds no more if it finds nothing where nothing was. -/
theorem length_le_of_nil {found found' : List Located} (hone : found'.length ≤ 1)
    (hnil : found = [] → found' = []) : found'.length ≤ found.length := by
  cases found with
  | nil => exact Nat.le_of_eq (by rw [hnil rfl])
  | cons f rest => exact Nat.le_trans hone (Nat.le_add_left 1 rest.length)

theorem length_flatten_mapIdx_le {as bs : List Argument} {f g : Nat → Argument → List Located}
    {R : Argument → Argument → Prop} (h : List.Forall₂ R as bs)
    (hfg : ∀ i a b, R a b → (g i b).length ≤ (f i a).length) :
    (bs.mapIdx g).flatten.length ≤ (as.mapIdx f).flatten.length := by
  induction h generalizing f g with
  | nil => exact Nat.le_refl _
  | cons hab _ ih =>
    rw [List.mapIdx_cons, List.mapIdx_cons, List.flatten_cons, List.flatten_cons,
      List.length_append, List.length_append]
    exact Nat.add_le_add (hfg 0 _ _ hab) (ih fun i => hfg (i + 1))

theorem length_flatMap_le {es fs : List Entry} {f : Entry → List Located}
    {R : Entry → Entry → Prop} (h : List.Forall₂ R es fs)
    (hf : ∀ e e', R e e' → (f e').length ≤ (f e).length) :
    (fs.flatMap f).length ≤ (es.flatMap f).length := by
  induction h with
  | nil => exact Nat.le_refl _
  | cons he _ ih =>
    rw [List.flatMap_cons, List.flatMap_cons, List.length_append, List.length_append]
    exact Nat.add_le_add (hf _ _ he) ih

namespace FieldSchema

/-- A schema that does not look into values does not find more, if it accepts no values with parts
but those that are left whole. -/
theorem length_check_le_of_flat {s : FieldSchema} (hone : ∀ p t a, (s.check p t a).length ≤ 1)
    (hnil : ∀ p t t' a, s.check p t a = [] → s.check p t' a = [] ∧ (a.hasParts → whole a))
    (p : Place) (t t' : Tree) {a b : Argument} (h : a.Deferred whole b) :
    (s.check p t' b).length ≤ (s.check p t a).length := by
  refine length_le_of_nil (hone p t' b) fun hfound => ?_
  obtain ⟨hagain, hwhole⟩ := hnil p t t' a hfound
  rcases h.cases_of_deferred with htrusted | rfl | ⟨hparts, hnot⟩
  · exact check_of_trusted htrusted p t' s
  · exact hagain
  · exact absurd (hwhole hparts) hnot

theorem check_literal_eq_nil_iff (p : Place) (t : Tree) (v : Json) (a : Argument) :
    (FieldSchema.literal v).check p t a = [] ↔ a.isTrusted ∨ (a.toJson?).any v.same := by
  cases a <;> simp [FieldSchema.check, Argument.isTrusted]

theorem check_oneOf_eq_nil_iff (p : Place) (t : Tree) (variants : List FieldSchema)
    (a : Argument) : (FieldSchema.oneOf variants).check p t a = [] ↔
      a.isTrusted ∨ ∃ s ∈ variants, s.check p t a = [] := by
  rw [← anyAccepts_iff]
  cases a <;> simp [FieldSchema.check, Argument.isTrusted]

end FieldSchema

/-- The entries of an object are found to have no more faults, if the schemas of its fields find no
more. -/
theorem ObjectSchema.length_check_entries_le {schema : ObjectSchema}
    (ih : ∀ e ∈ schema.properties, ∀ p t t' {a b : Argument}, a.Deferred whole b →
      (e.2.check p t' b).length ≤ (e.2.check p t a).length)
    (p : Place) (discriminator : Option String) (anchor anchor' : Tree) {es fs : List Entry}
    (h : List.Forall₂ (Entry.Deferred whole) es fs) :
    (ObjectSchema.check p discriminator anchor' fs schema).length ≤
      (ObjectSchema.check p discriminator anchor es schema).length := by
  obtain ⟨name, properties, required, additional⟩ := schema
  simp only [ObjectSchema.check, List.length_append, FieldSchema.checkNamed_eq]
  refine Nat.add_le_add (length_flatMap_le h fun e f hef => ?_) ?_
  · cases hef with
    | spread => exact Nat.le_refl _
    | other => exact Nat.le_refl _
    | @property key a b keyNode keyNode' node node' hab =>
      by_cases hexempt : isExempt p discriminator key
      · simp [hexempt]
      · simp only [hexempt, Bool.false_eq_true, if_false]
        cases hs : Keyed.get? properties key with
        | none => cases additional <;> simp
        | some s => exact ih _ (Keyed.mem_of_get? hs) _ _ _ hab
  · -- What lacks is not put off.
    rw [hasSpread_eq_of_deferred h]
    simp only [hasKey_eq_of_deferred h]
    split
    · exact Nat.le_refl _
    · exact Nat.le_of_eq (by rw [List.length_map, List.length_map])

/-- **A schema does not find more in a value of which parts are put off**, if the values that it
asks for are left whole. -/
theorem FieldSchema.length_check_argument_le (s : FieldSchema) :
    (∀ a, a.IsAmong s.literals → whole a) →
    ∀ p t t' {a b : Argument}, a.Deferred whole b →
      (s.check p t' b).length ≤ (s.check p t a).length := by
  induction s using FieldSchema.induction with
  | any =>
    intro _ p t t' a b _
    simp [FieldSchema.check]
  | number =>
    intro _
    refine length_check_le_of_flat (fun p t a => ?_) fun p t t' a => ?_
    · cases a <;> simp [FieldSchema.check]
    · cases a <;> simp [FieldSchema.check, Argument.hasParts]
  | boolean =>
    intro _
    refine length_check_le_of_flat (fun p t a => ?_) fun p t t' a => ?_
    · cases a <;> simp [FieldSchema.check]
    · cases a <;> simp [FieldSchema.check, Argument.hasParts]
  | string values =>
    intro _
    refine length_check_le_of_flat (fun p t a => ?_) fun p t t' a => ?_
    · cases a <;> rcases values with _ | _ | ⟨v, vs⟩ <;> simp [FieldSchema.check]
      split <;> simp
    · cases a <;> rcases values with _ | _ | ⟨v, vs⟩ <;>
        simp [FieldSchema.check, Argument.hasParts]
  | literal v =>
    intro hwhole
    refine length_check_le_of_flat (fun p t a => ?_) fun p t t' a => ?_
    · cases a <;> simp only [FieldSchema.check] <;> first | exact Nat.zero_le 1 | (split <;> simp)
    · rw [check_literal_eq_nil_iff, check_literal_eq_nil_iff]
      intro h
      refine ⟨h, fun hparts => ?_⟩
      rcases h with htrusted | hsame
      · cases a <;> simp [Argument.isTrusted, Argument.hasParts] at htrusted hparts
      · exact hwhole a ⟨v, List.mem_singleton_self v, hsame⟩
  | array items ih =>
    intro hwhole p t t' a b h
    have hitems : ∀ {as bs : List Argument}, List.Forall₂ (Argument.Deferred whole) as bs →
        ((FieldSchema.array items).check p t' (.array bs)).length ≤
          ((FieldSchema.array items).check p t (.array as)).length := by
      intro as bs h
      rw [FieldSchema.check, FieldSchema.check]
      exact length_flatten_mapIdx_le h fun i a b hab => ih hwhole (p.element i) t t' hab
    cases h with
    | refl =>
      cases a with
      | array as => exact hitems (List.forall₂_same.2 fun a _ => .refl a)
      | _ => simp [FieldSchema.check]
    | reference => simp [FieldSchema.check]
    | computed => simp [FieldSchema.check]
    | array _ h => exact hitems h
    | object => simp [FieldSchema.check]
  | object schema ih =>
    intro hwhole p t t' a b h
    have hentries : ∀ {es fs : List Entry}, List.Forall₂ (Entry.Deferred whole) es fs →
        ((FieldSchema.object schema).check p t' (.object fs)).length ≤
          ((FieldSchema.object schema).check p t (.object es)).length := by
      intro es fs h
      rw [FieldSchema.check, FieldSchema.check]
      refine ObjectSchema.length_check_entries_le (fun e he => ?_) _ _ t t' h
      exact ih e he fun a ha => hwhole a (ha.mono fun v => ObjectSchema.mem_literals he)
    cases h with
    | refl =>
      cases a with
      | object es => exact hentries (List.forall₂_same.2 fun e _ => .refl e)
      | _ => simp [FieldSchema.check]
    | reference => simp [FieldSchema.check]
    | computed => simp [FieldSchema.check]
    | array => simp [FieldSchema.check]
    | object _ h => exact hentries h
  | oneOf variants ih =>
    intro hwhole p t t' a b h
    have hone : ((FieldSchema.oneOf variants).check p t' b).length ≤ 1 := by
      cases b <;> simp only [FieldSchema.check] <;> first | exact Nat.zero_le 1 | (split <;> simp)
    refine length_le_of_nil hone fun hfound => ?_
    rw [check_oneOf_eq_nil_iff] at hfound ⊢
    rcases hfound with htrusted | ⟨s, hs, hnil⟩
    · -- What is trusted has no parts to put off.
      rcases h.cases_of_deferred with hb | rfl | ⟨hparts, -⟩
      · exact .inl hb
      · exact .inl htrusted
      · cases a <;> simp [Argument.isTrusted, Argument.hasParts] at htrusted hparts
    · have hwhole' : ∀ a, a.IsAmong s.literals → whole a :=
        fun a ha => hwhole a (ha.mono fun v => mem_literals_oneOf hs)
      have hle := ih s hs hwhole' p t t' h
      rw [hnil] at hle
      exact .inr ⟨s, hs, List.eq_nil_of_length_eq_zero (Nat.le_zero.1 hle)⟩

/-! ### Contracts -/

namespace Contract

/-- The schemas of the objects that a contract describes do not find more in entries of which parts
are put off, if the values that the contract asks for are left whole. -/
theorem length_check_object_le {c : Contract} {schema : ObjectSchema} (hschema : schema ∈ c.objects)
    (p : Place) (discriminator : Option String) (anchor anchor' : Tree) {es fs : List Entry}
    (h : List.Forall₂ (Entry.Deferred (Argument.IsAmong c.literals)) es fs) :
    (schema.check p discriminator anchor' fs).length ≤
      (schema.check p discriminator anchor es).length := by
  refine ObjectSchema.length_check_entries_le (fun e he => ?_) p discriminator anchor anchor' h
  refine e.2.length_check_argument_le fun a ha => ha.mono fun v hv => ?_
  exact List.mem_flatMap.2 ⟨schema, hschema, ObjectSchema.mem_literals he hv⟩

theorem length_checkUnion_le (p : Place) (d : String) (variants : List (String × ObjectSchema))
    (anchor anchor' : Tree) {es fs : List Entry}
    (h : List.Forall₂ (Entry.Deferred (Argument.IsAmong (union d variants).literals)) es fs) :
    (checkUnion p d variants anchor' fs).length ≤ (checkUnion p d variants anchor es).length := by
  unfold checkUnion Argument.property?
  simp only [Argument.entries]
  rcases find?_of_deferred h d with ⟨hes, hfs⟩ | ⟨e, f, hes, hfs, hef⟩
  · rw [hes, hfs, hasSpread_eq_of_deferred h]
    dsimp only
    split <;> exact Nat.le_refl _
  · rw [hes, hfs]
    cases hef with
    | spread => exact Nat.le_refl _
    | other => exact Nat.le_refl _
    | @property key a b keyNode keyNode' node node' value =>
      cases value with
      | refl =>
        cases a with
        | string s =>
          dsimp only
          cases hs : Keyed.get? variants s with
          | none => exact Nat.le_refl 1
          | some schema =>
            have hmem : schema ∈ (Contract.union d variants).objects :=
              List.mem_map.2 ⟨_, Keyed.mem_of_get? hs, rfl⟩
            exact length_check_object_le hmem _ _ anchor anchor' h
        | _ => exact Nat.le_refl _
      | reference => exact Nat.zero_le _
      | computed => exact Nat.zero_le _
      | array => exact Nat.le_refl _
      | object => exact Nat.le_refl _

/-- **The check of parameters does not find more once parts of them are put off**, if the values
that the contract asks for are left whole. -/
theorem length_check_le (c : Contract) (p : Place) (anchor anchor' : Tree) {es fs : List Entry}
    (h : List.Forall₂ (Entry.Deferred (Argument.IsAmong c.literals)) es fs) :
    (c.check p anchor' fs).length ≤ (c.check p anchor es).length := by
  cases c with
  | object schema =>
    exact length_check_object_le (List.mem_singleton_self schema) p none anchor anchor' h
  | union d variants => exact length_checkUnion_le p d variants anchor anchor' h

end Contract

/-- A message to two addresses with a text and with the mark of the second one. -/
def markedMessage (text mark : Argument) : List Entry :=
  let entry := fun key a => Entry.property key default a default
  [entry "operation" (.string "send"), entry "text" text,
    entry "to" (.array [.object [entry "mark" (.bool true)], .object [entry "mark" mark]])]

theorem markedMessage_deferred :
    (messageContract.check ⟨"Slack", "", "SlackParams"⟩ default
        (markedMessage .computed .reference)).length ≤
      (messageContract.check ⟨"Slack", "", "SlackParams"⟩ default
        (markedMessage (.number (.int 1)) (.bool false))).length ∧
    (messageContract.check ⟨"Slack", "", "SlackParams"⟩ default
      (markedMessage (.number (.int 1)) (.bool false))).length = 2 := by
  have hwhole : ∀ {a : Argument}, a.hasParts → ¬ a.IsAmong [.bool true] := by
    rintro a hparts ⟨v, hv, hsame⟩
    obtain rfl := List.mem_singleton.1 hv
    obtain ⟨w, hw, hsame⟩ := (Option.any_eq_true _ _).1 hsame
    cases a with
    | array as =>
      obtain ⟨ws, -, rfl⟩ := Option.map_eq_some_iff.1 hw
      cases hsame
    | object es =>
      obtain ⟨ws, -, rfl⟩ := Option.map_eq_some_iff.1 hw
      cases hsame
    | _ => cases hparts
  refine ⟨messageContract.length_check_le _ default default ?_, by rfl⟩
  refine .cons (.refl _) (.cons (.property _ _ _ _ (.computed _)) (.cons ?_ .nil))
  refine .property _ _ _ _ (.array (hwhole rfl) (.cons (.refl _) (.cons ?_ .nil)))
  refine .object (hwhole rfl) ?_
  exact .cons (.property _ _ _ _ (.reference _)) .nil

/-! ### Values that are asked for as a whole -/

/-- **A value with parts that is asked for as a whole is not found any more once a part of it is put
off.** -/
theorem FieldSchema.exists_deferred_lt (p : Place) (t : Tree) {v : Json} {a : Argument}
    (hparts : a.hasParts) (hsame : (a.toJson?).any v.same) :
    ∃ b, a.Deferred (fun _ => False) b ∧ ((FieldSchema.literal v).check p t a).length <
      ((FieldSchema.literal v).check p t b).length := by
  have hlt : ∀ {b : Argument}, b.isTrusted = false → b.toJson? = none →
      ((FieldSchema.literal v).check p t a).length <
        ((FieldSchema.literal v).check p t b).length := by
    intro b htrusted hjson
    have ha : (FieldSchema.literal v).check p t a = [] :=
      (check_literal_eq_nil_iff p t v a).2 (.inr hsame)
    have hb : (FieldSchema.literal v).check p t b ≠ [] := by
      rw [Ne, check_literal_eq_nil_iff, htrusted, hjson]
      simp
    rw [ha]
    exact List.length_pos_iff.2 hb
  cases a with
  | array as =>
    cases as with
    | nil => cases hparts
    | cons a as =>
      refine ⟨.array (.reference :: as), .array id (.cons (.reference a) ?_), hlt rfl rfl⟩
      exact List.forall₂_same.2 fun a _ => .refl a
  | object es =>
    cases es with
    | nil => cases hparts
    | cons e es =>
      cases e with
      | property key keyNode a node =>
        refine ⟨.object (.property key keyNode .reference node :: es), .object id
          (.cons (.property _ _ _ _ (.reference a)) ?_), hlt rfl rfl⟩
        exact List.forall₂_same.2 fun e _ => .refl e
      | spread t => cases hsame
      | other t => cases hsame
  | _ => cases hparts

end FlowAnalysis
