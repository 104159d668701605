import FlowAnalysis.Proofs.Bracing.Flow
import FlowAnalysis.Proofs.Trimming.Checks
import FlowAnalysis.Types.Payload

/-!
# Checks of flows in normal form

The structure of a flow is found fault with in the normal form as in the source, and so are its
bubbles and their parameters.  Where a message quotes a text as it is written, it says the same if
no promoted body stands in that text.

## Main definitions

* `Finding.Agrees` — a finding of the normal form is one of the source.

## Main results

* `Flow.Twins.agrees_checkStructure` — the structure.
* `Flow.Twins.findings_checkCredentials`, `Flow.Twins.findings_checkRegistered` — the bubbles.
* `Flow.Twins.findings_checkParameters` — the parameters.
-/

namespace FlowAnalysis

open Syntax

variable {s' s : Source} {named quotes : Prop} {f' f : Flow}

/-! ### Findings -/

/-- A finding is one under the same code, and the same one if it quotes the same. -/
structure Finding.Agrees (quotes : Prop) (x' x : Finding) : Prop where
  code : x'.code = x.code
  eq : quotes → x' = x

/-- The same findings agree. -/
theorem Finding.forall₂_agrees {l' l : List Finding} (h : l' = l) :
    List.Forall₂ (Finding.Agrees quotes) l' l := by
  subst h
  exact List.forall₂_same.2 fun x _ => ⟨rfl, fun _ => rfl⟩

/-! ### Parts of flows -/

theorem FlowClass.Twins.rel_method? {c' c : FlowClass} (h : FlowClass.Twins s' s c' c)
    (name : String) : Option.Rel (Method.Twins s' s) (c'.method? name) (c.method? name) :=
  h.methods.find? fun _ _ hm => by rw [hm.name, hm.isStatic]

theorem FlowClass.Twins.rel_field? {c' c : FlowClass} (h : FlowClass.Twins s' s c' c)
    (name : String) : Option.Rel (Field.Twins s' s) (c'.field? name) (c.field? name) :=
  h.fields.find? fun _ _ hf => by rw [hf.name]

theorem Construction.Twins.rel_paramsObject? {c' c : Construction}
    (h : Construction.Twins named s' s c' c) :
    Option.Rel (fun params' params => Twin s' s params' params ∧ params.is .object)
      c'.paramsObject? c.paramsObject? := by
  have harguments := h.arguments
  unfold Construction.paramsObject?
  generalize c'.arguments = arguments', c.arguments = arguments at harguments
  cases harguments with
  | nil => exact .none
  | cons hfirst _ =>
    dsimp only
    rw [hfirst.bare.is_eq]
    split
    · exact .some ⟨hfirst.bare, ‹_›⟩
    · exact .none

/-! ### Structure -/

/-- The throw statements of a body. -/
theorem Twin.forall₂_ownThrows {t' t : Tree} (h : Twin s' s t' t) :
    List.Forall₂ (Twin s' s) (Flow.ownThrows t') (Flow.ownThrows t) := by
  refine h.forall₂_walkBelow (Search.follows_is (by decide) (fun t' t ht => ?_) fun _ t ht => ?_)
  · rw [ht.isFunctionLike_eq, ht.is_eq]
  · have hlabel := Tree.is_iff.1 ht
    simp [Tree.isFunctionLike, Tree.isAny, Tree.functionKinds, Tree.is, hlabel]

theorem Method.Twins.findings_checkThrows (f' f : Flow) (config : Config) {m' m : Method}
    (hm : Method.Twins s' s m' m) : (f'.checkThrows config m').map (·.finding) =
      (f.checkThrows config m).map (·.finding) := by
  rw [Flow.checkThrows, Flow.checkThrows, List.map_map, List.map_map]
  exact (hm.body.map fun _ _ hbody => hbody.forall₂_ownThrows).forall₂_getD.map_eq fun _ _ _ => rfl

/-- The method that a call names. -/
theorem Twin.calledOnThis?_eq {t' t : Tree} (h : Twin f'.source f.source t' t)
    (hcall : t.is .callExpression) : f'.calledOnThis? t' = f.calledOnThis? t := by
  refine (h.rel_bare_field? (Tree.isOwner_of_is hcall rfl) .function).bind_eq
    fun callee' callee hcallee => ?_
  rw [hcallee.is_eq]
  split
  · next hmember =>
    refine (hcallee.rel_bare_field? (Tree.isOwner_of_is hmember rfl) .object).bind_eq
      fun object' object hobject => ?_
    rw [hobject.is_eq]
    split
    · exact (hcallee.rel_property hmember).map_eq fun _ _ hp => hp.2
    · rfl
  · rfl

theorem Twin.forall₂_stepCalls {t' t : Tree} (h : Twin f'.source f.source t' t) :
    List.Forall₂ (fun e' e => e'.1 = e.1) (f'.stepCalls t') (f.stepCalls t) := by
  have hcalls : List.Forall₂ (Twin f'.source f.source)
      ((t'.walkBelow (Tree.except Flow.rebindsThis)).filter (·.is .callExpression))
      ((t.walkBelow (Tree.except Flow.rebindsThis)).filter (·.is .callExpression)) := by
    refine h.forall₂_walkBelow
      (Search.follows_is (by decide) (fun t' t ht => ?_) fun _ t ht => ?_)
    · rw [Tree.except, Tree.except, Flow.rebindsThis, Flow.rebindsThis, ht.isFunctionLike_eq,
        ht.is_eq]
    · have hlabel := Tree.is_iff.1 ht
      simp [Tree.except, Flow.rebindsThis, Tree.isFunctionLike, Tree.isAny, Tree.functionKinds,
        Tree.is, hlabel]
  refine List.rel_filterMap (R := fun t' t => f'.calledOnThis? t' = f.calledOnThis? t)
    (fun t' t heq => ?_) (hcalls.imp_of_mem fun t' t hmem ht =>
      ht.calledOnThis?_eq (List.mem_filter.1 hmem).2)
  rw [heq]
  cases f.calledOnThis? t with
  | none => exact .none
  | some name => exact .some rfl

namespace FlowClass.Twins

variable {c' c : FlowClass} (h : FlowClass.Twins f'.source f.source c' c)

include h

theorem agrees_checkEntryMethod (config : Config)
    (hname : quotes → ∀ t ∈ c.node.field? .name, t.isVerbatim)
    (harguments : quotes → ∀ t ∈ c.typeArguments, t.isVerbatim) :
    List.Forall₂ (Finding.Agrees quotes) ((f'.checkEntryMethod config c').map (·.finding))
      ((f.checkEntryMethod config c).map (·.finding)) := by
  have hbase : quotes → f'.writtenBase config c' = f.writtenBase config c := fun hq => by
    have htext : c'.typeArguments.map f'.textOf = c.typeArguments.map f.textOf :=
      (h.typeArguments.imp_of_eq fun _ t ht htwin =>
        htwin.1.textOf_of_isVerbatim (harguments hq t ht)).map_eq fun _ _ heq => heq
    rw [Flow.writtenBase, Flow.writtenBase, htext]
  have hmethod := h.rel_method? config.entryMethod
  unfold Flow.checkEntryMethod
  generalize c'.method? config.entryMethod = m', c.method? config.entryMethod = m at hmethod
  cases hmethod with
  | none =>
    refine .cons ⟨rfl, fun hq => ?_⟩ .nil
    show Finding.entryMissing _ _ _ = .entryMissing _ _ _
    rw [hbase hq, h.name (hname hq)]
  | @some m' m hm =>
    -- Parameters count by their kinds, which stay.
    have hrequired : m'.parameters.countP Flow.isRequired = m.parameters.countP Flow.isRequired :=
      hm.parameters.countP_eq fun _ _ ht => ht.1.isAny_eq _
    simp only [hrequired]
    split
    · refine .cons ⟨rfl, fun hq => ?_⟩ .nil
      show Finding.entryTakesSeveral _ _ _ = .entryTakesSeveral _ _ _
      rw [hbase hq, h.name (hname hq)]
    · exact .nil

theorem findings_checkStepCalls (config : Config) :
    (f'.checkStepCalls config c').map (·.finding) =
      (f.checkStepCalls config c).map (·.finding) := by
  have hinstances : List.Forall₂ (Method.Twins f'.source f.source)
      (c'.methods.filter (!·.isStatic)) (c.methods.filter (!·.isStatic)) :=
    h.methods.filter fun _ _ hm => by rw [hm.isStatic]
  have hnames : ∀ callee, (c'.methods.filter (!·.isStatic)).any (·.name = callee) =
      (c.methods.filter (!·.isStatic)).any (·.name = callee) := fun callee =>
    hinstances.any_eq fun _ _ hm => by rw [hm.name]
  have hcallers := hinstances.filter (q := (·.name ≠ config.entryMethod))
    (p := (·.name ≠ config.entryMethod)) fun _ _ hm => by rw [hm.name]
  unfold Flow.checkStepCalls
  rw [List.map_map, List.map_map]
  refine (Flow.forall₂_firstPerKey (List.rel_flatMap hcallers fun m' m hm => ?_)).map_eq
    fun e' e he => ?_
  · have hcalls : List.Forall₂ (fun e' e => e'.1 = e.1) ((m'.body.map f'.stepCalls).getD [])
        ((m.body.map f.stepCalls).getD []) :=
      (hm.body.map fun _ _ hbody => hbody.forall₂_stepCalls).forall₂_getD
    refine List.rel_filterMap (fun call' call hcall => ?_) hcalls
    dsimp only
    rw [hcall, hnames]
    split
    · exact .some (congrArg (·, call.1) hm.name)
    · exact .none
  · show Finding.stepCall e'.1.1 e'.1.2 _ = .stepCall e.1.1 e.1.2 _
    rw [he]

end FlowClass.Twins

/-! ### Bubbles and their parameters -/

/-- A property of an object. -/
theorem Twin.rel_propertyOf? {t' t : Tree} (h : Twin s' s t' t) (hobject : t.is .object)
    (name : String) : Option.Rel (Entry.Twins s' s) ((s'.classify t').property? name)
      ((s.classify t).property? name) :=
  (h.forall₂_entries hobject).find? fun e' e he => by
    rw [← Entry.key?_erase e', he.erase, Entry.key?_erase]

/-- What a construction is given as credentials, and where it stands. -/
theorem Construction.Twins.rel_credentialsOf? {c' c : Construction}
    (h : Construction.Twins named f'.source f.source c' c) :
    Option.Rel (fun x' x => x'.1.erase = x.1.erase ∧ Twin f'.source f.source x'.2 x.2)
      (f'.credentialsOf? c') (f.credentialsOf? c) := by
  refine h.rel_paramsObject?.bind fun params' params ⟨hparams, hobject⟩ => ?_
  have hproperty := hparams.rel_propertyOf? hobject credentialsName
  generalize (f'.source.classify params').property? credentialsName = e',
    (f.source.classify params).property? credentialsName = e at hproperty
  cases hproperty with
  | none => exact .none
  | @some e' e he =>
    have hnode := he.valueNode?
    have herase := he.erase
    cases e' with
    | property key' keyNode' value' node' =>
      cases e with
      | property key keyNode value node =>
        simp only [Entry.erase, Entry.property.injEq] at herase
        cases hnode with
        | some hnode => exact .some ⟨herase.2.2.1, hnode⟩
      | _ => simp [Entry.erase] at herase
    | spread node' => cases e <;> first | exact .none | simp [Entry.erase] at herase
    | other node' => cases e <;> first | exact .none | simp [Entry.erase] at herase

theorem Construction.Twins.findings_checkConstruction (registry : Registry) {c' c : Construction}
    (h : Construction.Twins named f'.source f.source c' c) :
    findings (f'.checkConstruction registry c') = findings (f.checkConstruction registry c) := by
  have hparams := h.rel_paramsObject?
  unfold Flow.checkConstruction
  rw [h.className]
  cases registry.resolve? c.className with
  | none => rfl
  | some d =>
    generalize c'.paramsObject? = params', c.paramsObject? = params at hparams
    cases hparams with
    | none => rfl
    | @some params' params hparams =>
      refine d.contract.findings_check _ ?_
      rw [← Argument.entries_erase, ← Argument.entries_erase, hparams.1.erase_classify]

/-! ### Checks -/

namespace Flow.Twins

variable (h : Flow.Twins named f' f)

include h

theorem rel_flowClass? :
    Option.Rel (FlowClass.Twins f'.source f.source) f'.flowClass? f.flowClass? := by
  have hclasses := h.flowClasses
  unfold flowClass?
  generalize f'.flowClasses = classes', f.flowClasses = classes at hclasses
  cases hclasses with
  | nil => exact .none
  | cons hc hrest =>
    cases hrest with
    | nil => exact .some hc
    | cons _ _ => exact .none

theorem rel_entryMethod? :
    Option.Rel (Method.Twins f'.source f.source) f'.entryMethod? f.entryMethod? := by
  unfold entryMethod?
  rw [h.entryMethodName]
  exact h.rel_flowClass?.bind fun _ _ hc => hc.rel_method? _

theorem findings_checkFlowClass (config : Config) :
    (f'.checkFlowClass config).map (·.finding) = (f.checkFlowClass config).map (·.finding) := by
  have hclasses := h.flowClasses
  have hlength := hclasses.length_eq
  unfold checkFlowClass
  rw [hlength]
  generalize f'.flowClasses = classes', f.flowClasses = classes at hclasses
  cases hclasses with
  | nil => rfl
  | cons _ hrest =>
    cases hrest with
    | nil => rfl
    | cons _ _ => rfl

/-- **The structure is found fault with as in the source.** -/
theorem agrees_checkStructure (config : Config) :
    List.Forall₂ (Finding.Agrees (∀ t ∈ f.quoted, t.isVerbatim))
      ((f'.checkStructure config).map (·.finding)) ((f.checkStructure config).map (·.finding)) := by
  have hclass := h.rel_flowClass?.imp_of_eq fun _ c hc htwins =>
    And.intro htwins (mem_flowClasses_of_flowClass? hc)
  rw [checkStructure, checkStructure, List.map_append, List.map_append]
  refine List.rel_append (Finding.forall₂_agrees (h.findings_checkFlowClass config)) ?_
  generalize f'.flowClass? = c', f.flowClass? = c at hclass
  cases hclass with
  | none => exact .nil
  | @some c' c hc =>
    obtain ⟨hc, hmem⟩ := hc
    have hentry := hc.rel_method? config.entryMethod
    simp only [List.map_append]
    refine List.rel_append (List.rel_append (hc.agrees_checkEntryMethod config
      (fun hq t ht => hq t (mem_quoted_of_name hmem ht))
      fun hq t ht => hq t (mem_quoted_of_typeArguments hmem ht)) (Finding.forall₂_agrees ?_))
      (Finding.forall₂_agrees (hc.findings_checkStepCalls config))
    generalize c'.method? config.entryMethod = m', c.method? config.entryMethod = m at hentry
    cases hentry with
    | none => rfl
    | some hm => exact hm.findings_checkThrows f' f config

theorem findings_checkCredentials :
    f'.checkCredentials.map (·.finding) = f.checkCredentials.map (·.finding) := by
  rw [checkCredentials, checkCredentials, List.map_filterMap, List.map_filterMap]
  refine h.constructions.filterMap_eq fun c' c hc => ?_
  have hcredentials := hc.rel_credentialsOf?
  rw [hc.className]
  generalize f'.credentialsOf? c' = x', f.credentialsOf? c = x at hcredentials
  cases hcredentials with
  | none => rfl
  | @some x' x hx =>
    have hhardcoded : x'.1.isHardcoded = x.1.isHardcoded := by
      rw [← Argument.isHardcoded_erase, hx.1, Argument.isHardcoded_erase]
    simp only [hhardcoded]
    split <;> rfl

theorem findings_checkRegistered (registry : Registry) :
    (f'.checkRegistered registry).map (·.finding) =
      (f.checkRegistered registry).map (·.finding) := by
  rw [checkRegistered, checkRegistered, List.map_map, List.map_map]
  refine (h.constructions.filter fun c' c hc => ?_).map_eq fun c' c hc => ?_
  · rw [hc.className]
  · exact congrArg Finding.unregistered hc.className

theorem findings_checkParameters (registry : Registry) :
    (f'.checkParameters registry).map (·.finding) =
      (f.checkParameters registry).map (·.finding) := by
  rw [checkParameters, checkParameters, List.map_map, List.map_map, List.map_flatMap,
    List.map_flatMap]
  exact h.constructions.flatMap_eq fun _ _ hc => hc.findings_checkConstruction registry

end Flow.Twins

end FlowAnalysis
