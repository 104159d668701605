import FlowAnalysis.Check.Bubbles
import FlowAnalysis.Check.Parameters
import FlowAnalysis.Proofs.Classification
import FlowAnalysis.Proofs.Conformance
import FlowAnalysis.Proofs.Trimming.Tree
import Mathlib.Data.List.Forall2

/-!
# Arguments in trimmed sources

An expression is classified in a trimmed source as in the source, but for the nodes that are kept to
place findings; and what a check of parameters finds does not depend on these.

## Main definitions

* `Argument.erase`, `Entry.erase` — an argument without its nodes.
* `Entry.Matches` — an entry of a trimmed source.

## Main results

* `Trimming.Matches.arguesSame` — **an expression is classified as in the source.**
* `Contract.findings_check` — what a contract finds does not depend on the nodes.
-/

namespace FlowAnalysis

open Syntax

/-! ### Arguments without nodes -/

mutual

/-- An argument without the nodes at which its entries stand. -/
def Argument.erase : Argument → Argument
  | .object es => .object (Entry.eraseAll es)
  | .array items => .array (Argument.eraseAll items)
  | .string s => .string s
  | .number n => .number n
  | .bool b => .bool b
  | .null => .null
  | .undefined => .undefined
  | .reference => .reference
  | .computed => .computed

/-- Several arguments without nodes. -/
def Argument.eraseAll : List Argument → List Argument
  | [] => []
  | a :: as => a.erase :: Argument.eraseAll as

/-- An entry without nodes. -/
def Entry.erase : Entry → Entry
  | .property key _ value _ => .property key default value.erase default
  | .spread _ => .spread default
  | .other _ => .other default

/-- Several entries without nodes. -/
def Entry.eraseAll : List Entry → List Entry
  | [] => []
  | e :: es => e.erase :: Entry.eraseAll es

end

theorem Argument.eraseAll_eq (as : List Argument) :
    Argument.eraseAll as = as.map Argument.erase := by
  induction as with
  | nil => rfl
  | cons a as ih => rw [Argument.eraseAll, ih, List.map_cons]

theorem Entry.eraseAll_eq (es : List Entry) : Entry.eraseAll es = es.map Entry.erase := by
  induction es with
  | nil => rfl
  | cons e es ih => rw [Entry.eraseAll, ih, List.map_cons]

/-! ### Classification -/

namespace Syntax.Trimming

variable {P : Trimming} {s' s : Source} {u t v c p : Tree}

/-- An expression that is no wrapper is no entry with a name. -/
theorem entry_of_isAny (s : Source) {t : Tree} (h : t.isAny expressionKinds) :
    s.entry t = .other t := by
  rw [Source.entry_eq, Tree.is_eq_false_of_isAny (k := .pair) (by decide) h,
    Tree.is_eq_false_of_isAny (k := .shorthandPropertyIdentifier) (by decide) h,
    Tree.is_eq_false_of_isAny (k := .spreadElement) (by decide) h]
  rfl

namespace Matches

theorem numberArgument (h : P.Matches s' s u t) (ht : t.is .number) (negative : Bool) :
    s'.numberArgument negative u = s.numberArgument negative t := by
  rw [Source.numberArgument, Source.numberArgument, h.chars_of_is ht (by decide)]

theorem signedArgument (h : P.Matches s' s u t) : s'.signedArgument u = s.signedArgument t := by
  have hoperator := h.rel_field?_of_mem (r := .operator) (by decide)
  have hargument := h.rel_bare_field? .argument
  unfold Source.signedArgument
  generalize u.field? .operator = operator' at *
  generalize t.field? .operator = operator at *
  generalize u.field? .argument = argument' at *
  generalize t.field? .argument = argument at *
  cases hoperator with
  | none => rfl
  | some hoperator =>
    cases hargument with
    | none => rfl
    | some hargument =>
      simp only [hoperator.isToken_eq, hargument.is_eq]
      split
      · next hnumber => rw [hargument.numberArgument (Bool.and_eq_true_iff.1 hnumber).2]
      · rfl

theorem leafArgument (h : P.Matches s' s u t) : s'.leafArgument u = s.leafArgument t := by
  unfold Source.leafArgument
  rw [h.label, h.stringValue?]
  split
  case h_3 hl => rw [h.numberArgument (Tree.is_iff.2 hl)]
  case h_8 => rw [h.signedArgument]
  all_goals rfl

end Matches

/-- Two nodes are the same as arguments and as entries, but for the nodes inside these. -/
structure ArguesSame (s' s : Source) (u t : Tree) : Prop where
  argument : (s'.classify u).erase = (s.classify t).erase
  entry : (s'.entry u).erase = (s.entry t).erase

/-- What stands in the place of a child is what the child is, once what is left of the child is. -/
theorem ArguesSame.of_core (h : ArguesSame s' s v (P.core p c)) : ArguesSame s' s v c := by
  have hargument := h.argument
  have hentry := h.entry
  rw [← s.classify_bare, bare_core, s.classify_bare] at hargument
  rcases core_cases (P := P) p c with hsame | ⟨hc, hcore⟩
  · rw [hsame] at hentry
    exact ⟨hargument, hentry⟩
  · -- An expression that stands among the entries of an object is none with a name.
    rw [entry_of_isAny s hcore] at hentry
    exact ⟨hargument, hentry.trans (by rw [entry_of_isAny s hc]; rfl)⟩

namespace Matches

section Children

variable (h : P.Matches s' s u t) (ih : ∀ v c, P.Part s' s t v c → ArguesSame s' s v c)

include h ih

theorem erase_classify_of_parts : (s'.classify u).erase = (s.classify t).erase := by
  have hnamed := h.forall₂_named.imp ih
  rw [Source.classify_eq, Source.classify_eq s t, h.isWrapper_eq, h.is_eq, h.is_eq,
    h.any_is_children (by decide) (by decide), h.leafArgument]
  split
  · have hfirst := h.rel_firstNamed?.imp ih
    generalize u.firstNamed? = first' at hfirst
    generalize t.firstNamed? = first at hfirst
    cases hfirst with
    | none => rw [Option.map_none, Option.map_none]
    | some hc => exact hc.argument
  · split
    · rw [Argument.erase, Argument.erase, Entry.eraseAll_eq, Entry.eraseAll_eq, List.map_map,
        List.map_map]
      exact congrArg _ (hnamed.map_eq fun _ _ hc => hc.entry)
    · split
      · split
        · rfl
        · rw [Argument.erase, Argument.erase, Argument.eraseAll_eq, Argument.eraseAll_eq,
            List.map_map, List.map_map]
          exact congrArg _ (hnamed.map_eq fun _ _ hc => hc.argument)
      · rfl

theorem erase_entry_of_parts : (s'.entry u).erase = (s.entry t).erase := by
  rw [Source.entry_eq, Source.entry_eq s t, h.is_eq, h.is_eq, h.is_eq]
  split
  · have hkey := h.rel_field?_of_mem (r := .key) (by decide)
    have hvalue := (h.rel_field? .value).imp fun v c hc => ih v c hc.1
    generalize u.field? .key = key' at *
    generalize t.field? .key = key at *
    generalize u.field? .value = value' at *
    generalize t.field? .value = value at *
    cases hkey with
    | none => rfl
    | some hkey =>
      cases hvalue with
      | none => rfl
      | some hvalue =>
        simp only [hkey.propertyName?]
        cases s.propertyName? _ with
        | none => rfl
        | some name => simp only [Entry.erase, hvalue.argument]
  · split
    · next hname => rw [h.textOf_of_is hname (by decide)]; rfl
    · split <;> rfl

end Children

/-- **An expression is what it was in the source**, but for the nodes of its entries. -/
theorem arguesSame (h : P.Matches s' s u t) : ArguesSame s' s u t := by
  induction t using Tree.induction_below generalizing u with
  | node t ih =>
    have hpart : ∀ v c, P.Part s' s t v c → ArguesSame s' s v c := fun v c hc =>
      .of_core (ih c hc.mem _ (core_mem_nodes t c) hc.core)
    exact ⟨h.erase_classify_of_parts hpart, h.erase_entry_of_parts hpart⟩

end Matches

theorem Part.arguesSame (h : P.Part s' s p v c) : ArguesSame s' s v c := .of_core h.core.arguesSame

end Syntax.Trimming

/-! ### Entries -/

/-- The node at which the value of an entry stands. -/
def Entry.valueNode? : Entry → Option Tree
  | .property _ _ _ node => some node
  | _ => none

/-- An entry says the same in a trimmed source, and its value stands in the place of the value. -/
structure Entry.Matches (P : Trimming) (s' s : Source) (e' e : Entry) : Prop where
  erase : e'.erase = e.erase
  valueNode? : Option.Rel (fun v c => ∃ p, P.Part s' s p v c) e'.valueNode? e.valueNode?

namespace Syntax.Trimming

variable {P : Trimming} {s' s : Source} {u t v c p : Tree}

/-- The entry that a child is. -/
theorem Part.entry (h : P.Part s' s p v c) : Entry.Matches P s' s (s'.entry v) (s.entry c) := by
  refine ⟨h.arguesSame.entry, ?_⟩
  rcases h.matches_or_expressions.symm with ⟨hv, hc⟩ | hcore
  · rw [entry_of_isAny s' hv, entry_of_isAny s hc]
    exact .none
  · rw [Source.entry_eq, Source.entry_eq s c, hcore.is_eq, hcore.is_eq, hcore.is_eq]
    split
    · have hkey := hcore.rel_field?_of_mem (r := .key) (by decide)
      have hvalue := hcore.rel_field? .value
      generalize v.field? .key = key' at *
      generalize c.field? .key = key at *
      generalize v.field? .value = value' at *
      generalize c.field? .value = value at *
      cases hkey with
      | none => exact .none
      | some hkey =>
        cases hvalue with
        | none => exact .none
        | some hvalue =>
          simp only [hkey.propertyName?]
          cases s.propertyName? _ with
          | none => exact .none
          | some name => exact .some ⟨c, hvalue.1⟩
    · split
      · exact .some ⟨p, h⟩
      · split <;> exact .none

/-- The entries of an object. -/
theorem Matches.forall₂_entries (h : P.Matches s' s u t) (ht : t.is .object) :
    List.Forall₂ (Entry.Matches P s' s) (s'.classify u).entries (s.classify t).entries := by
  rw [s'.entries_classify (h.is_eq _ ▸ ht), s.entries_classify ht, List.forall₂_map_left_iff,
    List.forall₂_map_right_iff]
  exact h.forall₂_named.imp fun _ _ hc => hc.entry

end Syntax.Trimming

/-! ### Checks of parameters -/

namespace Argument

mutual

theorem toJson?_erase (a : Argument) : a.erase.toJson? = a.toJson? := by
  match a with
  | .object es => rw [erase, toJson?, toJson?, entriesToJson?_erase es]
  | .array items => rw [erase, toJson?, toJson?, itemsToJson?_erase items]
  | .string _ | .number _ | .bool _ | .null | .undefined | .reference | .computed => rfl

theorem itemsToJson?_erase (as : List Argument) :
    itemsToJson? (eraseAll as) = itemsToJson? as := by
  match as with
  | [] => rfl
  | a :: as => rw [eraseAll, itemsToJson?, itemsToJson?, toJson?_erase a, itemsToJson?_erase as]

theorem entryToJson?_erase (e : Entry) : entryToJson? e.erase = entryToJson? e := by
  match e with
  | .property _ _ value _ => rw [Entry.erase, entryToJson?, entryToJson?, toJson?_erase value]
  | .spread _ | .other _ => rfl

theorem entriesToJson?_erase (es : List Entry) :
    entriesToJson? (Entry.eraseAll es) = entriesToJson? es := by
  match es with
  | [] => rfl
  | e :: es =>
    rw [Entry.eraseAll, entriesToJson?, entriesToJson?, entryToJson?_erase e,
      entriesToJson?_erase es]

end

theorem typeName?_erase (a : Argument) : a.erase.typeName? = a.typeName? := by cases a <;> rfl

theorem isHardcoded_erase (a : Argument) : a.erase.isHardcoded = a.isHardcoded := by
  cases a with
  | object es => cases es <;> rfl
  | array items => cases items <;> rfl
  | _ => rfl

theorem isTrusted_erase (a : Argument) : a.erase.isTrusted = a.isTrusted := by cases a <;> rfl

theorem shownType_erase (a : Argument) : shownType a.erase = shownType a := by
  rw [shownType, shownType, typeName?_erase]

theorem shownValue_erase (a : Argument) : shownValue a.erase = shownValue a := by cases a <;> rfl

theorem entries_erase (a : Argument) : a.erase.entries = a.entries.map Entry.erase := by
  cases a with
  | object es => exact Entry.eraseAll_eq es
  | _ => rfl

end Argument

theorem Entry.key?_erase (e : Entry) : e.erase.key? = e.key? := by cases e <;> rfl

theorem hasSpread_erase (es : List Entry) : hasSpread (es.map Entry.erase) = hasSpread es := by
  simp only [hasSpread, List.any_map, Function.comp_def, Entry.key?_erase]

theorem hasKey_erase (es : List Entry) (key : String) :
    hasKey (es.map Entry.erase) key = hasKey es key := by
  simp only [hasKey, List.any_map, Function.comp_def, Entry.key?_erase]

theorem Argument.property?_erase (a : Argument) (name : String) :
    a.erase.property? name = (a.property? name).map Entry.erase := by
  rw [property?, property?, entries_erase, List.find?_map]
  simp only [Function.comp_def, Entry.key?_erase]

/-- What a check says, wherever it says it. -/
def findings (found : List Located) : List Finding := found.map (·.1)

theorem findings_append (found found' : List Located) :
    findings (found ++ found') = findings found ++ findings found' := List.map_append

theorem isEmpty_findings (found : List Located) : (findings found).isEmpty = found.isEmpty := by
  cases found <;> rfl

/-- The findings in the entries of an object do not depend on nodes, once those in the values of its
fields do not. -/
theorem ObjectSchema.findings_check {schema : ObjectSchema}
    (ih : ∀ e ∈ schema.properties, ∀ (p : Place) (t t' : Tree) (a : Argument),
      findings (e.2.check p t a) = findings (e.2.check p t' a.erase))
    (p : Place) (discriminator : Option String) (t t' : Tree) (es : List Entry) :
    findings (ObjectSchema.check p discriminator t es schema) =
      findings (ObjectSchema.check p discriminator t' (es.map Entry.erase) schema) := by
  obtain ⟨name, properties, required, additional⟩ := schema
  rw [ObjectSchema.check, ObjectSchema.check, findings_append, findings_append, hasSpread_erase]
  congr 1
  · rw [findings, findings, List.map_flatMap, List.flatMap_map, List.map_flatMap]
    refine List.flatMap_congr fun e _ => ?_
    cases e with
    | spread node => rfl
    | other node => rfl
    | property key keyNode value valueNode =>
      simp only [Entry.erase, FieldSchema.checkNamed_eq]
      split
      · rfl
      · cases hs : Keyed.get? properties key with
        | none => cases additional <;> rfl
        | some s => exact ih _ (Keyed.mem_of_get? hs) _ _ _ _
  · split
    · rfl
    · simp only [findings, List.map_map, hasKey_erase]
      rfl

namespace FieldSchema

/-- A literal has one finding at most, whatever the argument. -/
theorem findings_check_literal (p : Place) (t : Tree) (a : Argument) (value : Json) :
    findings ((FieldSchema.literal value).check p t a) =
      if a.isTrusted || a.toJson?.any value.same then []
      else [.typeMismatch (shownValue a) (FieldSchema.literal value).describe p.path
        p.className] := by
  cases a <;> simp only [check, Argument.isTrusted, Bool.true_or, Bool.false_or] <;>
    first | rfl | (split <;> rfl)

/-- So has a choice of schemas. -/
theorem findings_check_oneOf (p : Place) (t : Tree) (a : Argument) (variants : List FieldSchema) :
    findings ((FieldSchema.oneOf variants).check p t a) =
      if a.isTrusted || anyAccepts p t a variants then []
      else [.typeMismatch (shownType a) (FieldSchema.oneOf variants).describe p.path
        p.className] := by
  cases a <;> simp only [check, Argument.isTrusted, Bool.true_or, Bool.false_or] <;>
    first | rfl | (split <;> rfl)

end FieldSchema

/-- **What a schema finds does not depend on nodes.** -/
theorem FieldSchema.findings_check (s : FieldSchema) : ∀ (p : Place) (t t' : Tree) (a : Argument),
    findings (s.check p t a) = findings (s.check p t' a.erase) := by
  induction s using FieldSchema.induction with
  | any => exact fun _ _ _ _ => rfl
  | number =>
    intro p t t' a
    cases a <;> rfl
  | boolean =>
    intro p t t' a
    cases a <;> rfl
  | string values =>
    intro p t t' a
    cases a with
    | string text =>
      simp only [Argument.erase, FieldSchema.check]
      split
      · split <;> rfl
      · rfl
    | _ => rfl
  | literal value =>
    intro p t t' a
    rw [findings_check_literal, findings_check_literal, Argument.shownValue_erase,
      Argument.isTrusted_erase, Argument.toJson?_erase]
  | array items ih =>
    intro p t t' a
    cases a with
    | array elements =>
      rw [Argument.erase, FieldSchema.check, FieldSchema.check, Argument.eraseAll_eq, findings,
        findings, List.map_flatten, List.map_flatten]
      -- The place of an element names its index, so the elements are compared index by index.
      refine congrArg List.flatten (List.ext_getElem (by simp) fun i hi hi' => ?_)
      simp only [List.getElem_map, List.getElem_mapIdx]
      exact ih _ _ _ _
    | _ => rfl
  | object schema ih =>
    intro p t t' a
    cases a with
    | object es =>
      simp only [Argument.erase, FieldSchema.check, Entry.eraseAll_eq]
      exact ObjectSchema.findings_check ih _ _ _ _ _
    | _ => rfl
  | oneOf variants ih =>
    intro p t t' a
    have haccepts : FieldSchema.anyAccepts p t a variants =
        FieldSchema.anyAccepts p t' a.erase variants := by
      induction variants with
      | nil => rfl
      | cons s rest ihrest =>
        rw [List.forall_mem_cons] at ih
        rw [FieldSchema.anyAccepts, FieldSchema.anyAccepts, ihrest ih.2, ← isEmpty_findings,
          ih.1 p t t' a, isEmpty_findings]
    rw [findings_check_oneOf, findings_check_oneOf, Argument.shownType_erase,
      Argument.isTrusted_erase, haccepts]

theorem Contract.findings_checkUnion (p : Place) (discriminator : String)
    (variants : List (String × ObjectSchema)) (t t' : Tree) (es : List Entry) :
    findings (checkUnion p discriminator variants t es) =
      findings (checkUnion p discriminator variants t' (es.map Entry.erase)) := by
  have hfirst : (Argument.object (es.map Entry.erase)).property? discriminator =
      ((Argument.object es).property? discriminator).map Entry.erase := by
    rw [← Argument.property?_erase, Argument.erase, Entry.eraseAll_eq]
  rw [checkUnion, checkUnion, hfirst, hasSpread_erase]
  cases (Argument.object es).property? discriminator with
  | none => cases hasSpread es <;> rfl
  | some e =>
    cases e with
    | spread node => rfl
    | other node => rfl
    | property key keyNode value valueNode =>
      cases value with
      | string text =>
        simp only [Option.map_some, Entry.erase, Argument.erase]
        cases Keyed.get? variants text with
        | none => rfl
        | some schema =>
          exact ObjectSchema.findings_check (fun e _ => FieldSchema.findings_check e.2) _ _ _ _ _
      | _ => rfl

/-- **What a contract finds does not depend on the nodes.** -/
theorem Contract.findings_check (c : Contract) (p : Place) {t t' : Tree} {es es' : List Entry}
    (h : es.map Entry.erase = es'.map Entry.erase) :
    findings (c.check p t es) = findings (c.check p t' es') := by
  -- Both are compared with the check of the entries without nodes.
  have herase : ∀ (u : Tree) (fs : List Entry),
      findings (c.check p u fs) = findings (c.check p default (fs.map Entry.erase)) := by
    intro u fs
    cases c with
    | object schema =>
      exact ObjectSchema.findings_check (fun e _ => FieldSchema.findings_check e.2) _ _ _ _ _
    | union discriminator variants => exact findings_checkUnion _ _ _ _ _ _
  rw [herase t es, herase t' es', h]

end FlowAnalysis
