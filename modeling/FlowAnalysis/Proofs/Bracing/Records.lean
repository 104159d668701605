import FlowAnalysis.Analysis
import FlowAnalysis.Proofs.Bracing.Payload
import FlowAnalysis.Proofs.Bracing.Rules

/-!
# Records of flows in normal form

The records of a flow say the same in the normal form, but for the texts of expressions that are no
literals, and so does what else is extracted from it.

## Main definitions

* `Parameter.Agrees`, `Record.Agrees`, `Extraction.Agrees` — what says the same.

## Main results

* `Flow.Twins.agrees_records` — **the records of the normal form say the same.**
* `Flow.Twins.requirements_eq` — the same credentials are needed.
-/

namespace FlowAnalysis

open Syntax

variable {named : Prop} {f' f : Flow}

/-! ### What says the same -/

/-- A parameter is the same, but for the text of an expression that is no literal. -/
inductive Parameter.Agrees : Parameter → Parameter → Prop
  | refl (p : Parameter) : Parameter.Agrees p p
  | expression (name source' source : String) (kind : ParameterKind) :
    Parameter.Agrees ⟨name, .expression source', kind, false⟩
      ⟨name, .expression source, kind, false⟩
  /-- An expression that has no name is called by its text. -/
  | unnamed (source' source : String) (kind : ParameterKind) :
    Parameter.Agrees ⟨source', .expression source', kind, false⟩
      ⟨source, .expression source, kind, false⟩

/-- A record is the same, but for positions and for texts of expressions; the name of the variable
is the same where names are to be. -/
structure Record.Agrees (named : Prop) (r' r : Record) : Prop where
  number : r'.number = r.number
  variableName : named → r'.variableName = r.variableName
  className : r'.className = r.className
  displayName : r'.displayName = r.displayName
  kind : r'.kind = r.kind
  operation : r'.operation = r.operation
  parameters : List.Forall₂ Parameter.Agrees r'.parameters r.parameters

/-- What is extracted is the same, but for the hash of the text and for what may differ in the
records. -/
structure Extraction.Agrees (named : Prop) (e' e : Extraction) : Prop where
  verdict : e'.verdict = e.verdict
  records : List.Forall₂ (fun r' r => r'.1 = r.1 ∧ Record.Agrees named r'.2 r.2) e'.records
    e.records
  requirements : e'.requirements = e.requirements
  inputSchema : e'.inputSchema = e.inputSchema
  trigger : e'.trigger = e.trigger

/-! ### Operations -/

theorem Entry.value?_erase (e : Entry) : e.erase.value? = e.value?.map Argument.erase := by
  cases e <;> rfl

namespace Construction.Twins

variable {c' c : Construction} (h : Construction.Twins named f'.source f.source c' c)

include h

/-- The operation that a construction names is the same. -/
theorem operation?_eq (field : String) : f'.operation? c' field = f.operation? c field := by
  refine h.rel_paramsObject?.bind_eq fun params' params ⟨hparams, hobject⟩ => ?_
  have hvalue : Option.Rel (fun a' a => a'.erase = a.erase)
      (((f'.source.classify params').property? field).bind Entry.value?)
      (((f.source.classify params).property? field).bind Entry.value?) := by
    refine (hparams.rel_propertyOf? hobject field).bind fun e' e he => ?_
    have hmap : e'.value?.map Argument.erase = e.value?.map Argument.erase := by
      rw [← Entry.value?_erase, he.erase, Entry.value?_erase]
    cases hv' : e'.value? <;> cases hv : e.value? <;> simp [hv', hv] at hmap
    · exact .none
    · exact .some hmap
  generalize ((f'.source.classify params').property? field).bind Entry.value? = v',
    ((f.source.classify params).property? field).bind Entry.value? = v at hvalue
  cases hvalue with
  | none => rfl
  | @some a' a ha => cases a' <;> cases a <;> simp_all [Argument.erase]

theorem kindsOf_eq (registry : Registry) : f'.kindsOf registry c' = f.kindsOf registry c := by
  rw [Flow.kindsOf, Flow.kindsOf, h.className, h.operation?_eq]

end Construction.Twins

/-- **The same credentials are needed.** -/
theorem Flow.Twins.requirements_eq (h : Flow.Twins named f' f) (registry : Registry) :
    f'.requirements registry = f.requirements registry := by
  refine List.rel_foldl (P := Eq) (fun r' r hr c' c hc => ?_) rfl h.constructions
  rw [hr, hc.kindsOf_eq, hc.className]

/-! ### Parameters -/

namespace Flow

theorem agrees_parameterOf (config : Config) (name : String) {a' a : Argument}
    (h : a'.erase = a.erase) (t' t : Tree) :
    Parameter.Agrees (f'.parameterOf config name a' t') (f.parameterOf config name a t) := by
  have hvalue : a'.toJson? = a.toJson? := by
    rw [← Argument.toJson?_erase, h, Argument.toJson?_erase]
  unfold parameterOf
  rw [hvalue]
  cases a.toJson? with
  | some v => exact .refl _
  | none =>
    -- Objects and arrays are told from other expressions.
    cases a' <;> cases a <;> first | exact .expression _ _ _ _ | simp [Argument.erase] at h

theorem agrees_parameterOfEntry (config : Config) {s' s : Source} {e' e : Entry}
    (h : Entry.Twins s' s e' e) :
    Parameter.Agrees (f'.parameterOfEntry config e') (f.parameterOfEntry config e) := by
  have herase := h.erase
  cases e' <;> cases e <;> simp [Entry.erase] at herase
  · obtain ⟨rfl, hvalue⟩ := herase
    exact agrees_parameterOf config _ hvalue _ _
  · exact .unnamed _ _ _
  · exact .unnamed _ _ _

end Flow

namespace Construction.Twins

variable {c' c : Construction} (h : Construction.Twins named f'.source f.source c' c)

include h

theorem agrees_parametersOfConstruction (config : Config) :
    List.Forall₂ Parameter.Agrees (f'.parametersOfConstruction config c')
      (f.parametersOfConstruction config c) := by
  have harguments := h.arguments
  unfold Flow.parametersOfConstruction
  generalize c'.arguments = arguments', c.arguments = arguments at harguments
  cases harguments with
  | nil => exact .nil
  | @cons first' first _ _ hfirst _ =>
    have herase := hfirst.erase_classify
    dsimp only
    cases hobject : f.source.classify first with
    | object es =>
      -- The entries are those of the object inside its wrappers.
      have hkind := f.source.is_object_bare hobject
      have hentries := hfirst.bare.forall₂_entries hkind
      rw [Source.classify_bare, Source.classify_bare, hobject] at hentries
      cases hobject' : f'.source.classify first' with
      | object es' =>
        rw [hobject'] at hentries
        rw [List.forall₂_map_left_iff, List.forall₂_map_right_iff]
        exact hentries.imp fun _ _ he => Flow.agrees_parameterOfEntry config he
      | _ => simp [hobject, hobject', Argument.erase] at herase
    | _ =>
      rw [hobject] at herase
      cases hobject' : f'.source.classify first' with
      | object es' => simp [hobject', Argument.erase] at herase
      | _ =>
        rw [hobject'] at herase
        exact .cons (Flow.agrees_parameterOf config _ herase _ _) .nil

/-- A record of the normal form says the same. -/
theorem agrees_recordOf (registry : Registry) (config : Config) (number : Nat) :
    Record.Agrees named (f'.recordOf registry config number c')
      (f.recordOf registry config number c) where
  number := rfl
  variableName hnamed := by simp only [Flow.recordOf, h.binding hnamed, h.className]
  className := h.className
  displayName := by simp only [Flow.recordOf, h.className]
  kind := by simp only [Flow.recordOf, h.className]
  operation := by simp only [Flow.recordOf, h.className, h.operation?_eq]
  parameters := h.agrees_parametersOfConstruction config

end Construction.Twins

/-- **The records of the normal form say the same.** -/
theorem Flow.Twins.agrees_records (h : Flow.Twins named f' f) (registry : Registry)
    (config : Config) :
    List.Forall₂ (fun r' r => r'.1 = r.1 ∧ Record.Agrees named r'.2 r.2)
      (f'.records registry config) (f.records registry config) :=
  h.constructions.mapIdx fun i _ _ hc => ⟨rfl, hc.agrees_recordOf registry config (i + 1)⟩

end FlowAnalysis
