import FlowAnalysis.Check.Structure
import FlowAnalysis.Proofs.Trimming.Flow

/-!
# Checks of trimmed flows

The structure of a trimmed flow is found fault with as before, and so are its bubbles and their
parameters.

## Main results

* `Flow.Matches.findings_checkStructure` — the structure.
* `Flow.Matches.findings_checkCredentials`, `Flow.Matches.findings_checkRegistered` — the bubbles.
* `Flow.Matches.findings_checkParameters` — the parameters.
-/

namespace FlowAnalysis

open Syntax Trimming

variable {P : Trimming} {s' s : Source} {f' f : Flow} {config : Config}

/-! ### Parts of flows -/

theorem FlowClass.Matches.rel_method? {c' c : FlowClass} (h : FlowClass.Matches P s' s c' c)
    (name : String) : Option.Rel (Method.Matches P s' s) (c'.method? name) (c.method? name) :=
  h.methods.find? fun m' m hm => by rw [hm.name, hm.isStatic]

theorem FlowClass.Matches.rel_field? {c' c : FlowClass} (h : FlowClass.Matches P s' s c' c)
    (name : String) : Option.Rel (Field.Matches P s' s) (c'.field? name) (c.field? name) :=
  h.fields.find? fun f' f hf => by rw [hf.name]

theorem Construction.Matches.rel_paramsObject? {c' c : Construction}
    (h : Construction.Matches P s' s c' c) :
    Option.Rel (fun params' params => P.Matches s' s params' params ∧ params.is .object)
      c'.paramsObject? c.paramsObject? := by
  have harguments := h.arguments
  unfold Construction.paramsObject?
  generalize c'.arguments = arguments', c.arguments = arguments at harguments
  cases harguments with
  | nil => exact .none
  | cons hfirst _ =>
    dsimp only
    rw [hfirst.is_eq]
    split
    · exact .some ⟨hfirst, ‹_›⟩
    · exact .none

/-- Which entries are kept depends on the keys. -/
theorem Flow.forall₂_firstPerKey {κ α : Type} [BEq κ] {l' l : List (κ × α)}
    (h : List.Forall₂ (fun e' e => e'.1 = e.1) l' l) :
    List.Forall₂ (fun e' e => e'.1 = e.1) (firstPerKey l') (firstPerKey l) := by
  refine List.rel_foldl (fun acc' acc hacc e' e he => ?_) .nil h
  have hany : acc'.any (fun x => x.1 == e'.1) = acc.any (fun x => x.1 == e.1) :=
    hacc.any_eq fun _ _ hx => by rw [hx, he]
  rw [hany]
  split
  · exact hacc
  · exact List.rel_append hacc (.cons he .nil)

/-! ### Bodies -/

namespace Syntax.Trimming

/-- No wrapper is a function. -/
theorem Opened.isFunctionLike {p c e : Tree} (h : P.Opened p c e) : c.isFunctionLike = false :=
  Tree.isAny_eq_false_of_subset (by decide) h.isAny_loudKinds

/-- The nodes that count in a body, on a walk that enters all expressions but functions. -/
theorem Body.forall₂_walkBelow {visit' visit : Tree → Visit} {counts' counts : Tree → Bool}
    {v b : Tree} (h : P.Body s' s v b)
    (hw : P.Blind s' s Anywhere (.plain visit' counts') (.plain visit counts))
    (henter : ∀ t : Tree, t.isAny expressionKinds → t.isFunctionLike = false → visit t = .enter) :
    List.Forall₂ (P.Matches s' s) ((v.walkBelow visit').filter counts')
      ((b.walkBelow visit).filter counts) := by
  obtain ⟨g, hpart, hbody⟩ := h
  refine hpart.forall₂_walkBelow hw fun hopens => ?_
  obtain ⟨e, he⟩ := exists_opened hopens
  exact ⟨henter b he.isAny_expressionKinds he.isFunctionLike,
    henter _ (isAny_expressionKinds_core hopens) (hbody hopens)⟩

end Syntax.Trimming

namespace Flow.Matches

theorem rel_flowClass? (h : Flow.Matches P f' f) :
    Option.Rel (FlowClass.Matches P f'.source f.source) f'.flowClass? f.flowClass? := by
  have hclasses := h.flowClasses
  unfold flowClass?
  generalize f'.flowClasses = classes', f.flowClasses = classes at hclasses
  cases hclasses with
  | nil => exact .none
  | cons hc hrest =>
    cases hrest with
    | nil => exact .some hc
    | cons _ _ => exact .none

theorem rel_entryMethod? (h : Flow.Matches P f' f) :
    Option.Rel (Method.Matches P f'.source f.source) f'.entryMethod? f.entryMethod? := by
  unfold entryMethod?
  rw [h.entryMethodName]
  exact h.rel_flowClass?.bind fun _ _ hc => hc.rel_method? _

/-! ### Structure -/

theorem findings_checkFlowClass (h : Flow.Matches P f' f) (config : Config) :
    (f'.checkFlowClass config).map (·.finding) = (f.checkFlowClass config).map (·.finding) := by
  have hclasses := h.flowClasses
  have hlength := hclasses.length_eq
  unfold checkFlowClass
  rw [hlength]
  generalize f'.flowClasses = classes', f.flowClasses = classes at hclasses
  cases hclasses with
  | nil => rfl
  | cons _ hrest =>
    cases hrest with
    | nil => rfl
    | cons _ _ => rfl

theorem findings_checkEntryMethod (f' f : Flow) (config : Config) {c' c : FlowClass}
    (hc : FlowClass.Matches P f'.source f.source c' c) :
    (f'.checkEntryMethod config c').map (·.finding) =
      (f.checkEntryMethod config c).map (·.finding) := by
  have hbase : f'.writtenBase config c' = f.writtenBase config c := by
    have htext : c'.typeArguments.map f'.textOf = c.typeArguments.map f.textOf :=
      hc.typeArguments.map_eq fun _ _ ha => ha.2.1
    rw [writtenBase, writtenBase, htext]
  have hmethod := hc.rel_method? config.entryMethod
  unfold checkEntryMethod
  rw [hbase, hc.name]
  generalize c'.method? config.entryMethod = m', c.method? config.entryMethod = m at hmethod
  cases hmethod with
  | none => rfl
  | @some m' m hm =>
    -- Parameters count by their kinds, which stay.
    have hrequired : m'.parameters.countP isRequired = m.parameters.countP isRequired :=
      hm.parameters.countP_eq fun _ _ ht => ht.isAny_eq _
    simp only [hrequired]
    split <;> rfl

theorem forall₂_ownThrows (hP : P.Harmless config f' f) {v b : Tree}
    (h : P.Body f'.source f.source v b) :
    List.Forall₂ (P.Matches f'.source f.source) (ownThrows v) (ownThrows b) := by
  have hdeaf : P.Deaf f.source (·.isAny [.throwStatement]) := hP.deaf_isAny (by decide)
  have hquiet : ∀ t : Tree, t.isAny loudKinds = false → t.is .throwStatement = false := by
    intro t ht
    rw [← Tree.isAny_singleton]
    exact Tree.isAny_eq_false_of_subset (by decide) ht
  have hexpression : ∀ t : Tree, t.isAny expressionKinds → t.isFunctionLike = false →
      (if t.isFunctionLike then Visit.skip else if t.is .throwStatement then .keep else .enter) =
        .enter := by
    intro t ht hfunction
    rw [hfunction, Tree.is_eq_false_of_isAny (by decide) ht]
    rfl
  simp only [Tree.isAny_singleton] at hdeaf
  refine h.forall₂_walkBelow (blind_plain hdeaf hquiet hquiet (fun u t ht => ht.is_eq _)
    (fun u t ht => ?_) fun p _ c _ e he => .inl ?_) hexpression
  · rw [ht.isFunctionLike_eq, ht.is_eq]
  · exact hexpression c he.isAny_expressionKinds he.isFunctionLike

theorem findings_checkThrows (hP : P.Harmless config f' f) (config : Config) {m' m : Method}
    (hm : Method.Matches P f'.source f.source m' m) : (f'.checkThrows config m').map (·.finding) =
      (f.checkThrows config m).map (·.finding) := by
  rw [checkThrows, checkThrows, List.map_map, List.map_map]
  exact (hm.body.map fun _ _ hbody => forall₂_ownThrows hP hbody).forall₂_getD.map_eq
    fun _ _ _ => rfl

/-- The method that a call names. -/
theorem calledOnThis?_eq {u t : Tree} (ht : P.Matches f'.source f.source u t) :
    f'.calledOnThis? u = f.calledOnThis? t := by
  refine (ht.rel_bare_field? .function).bind_eq fun callee' callee hcallee => ?_
  rw [hcallee.is_eq]
  split
  · refine (hcallee.rel_bare_field? .object).bind_eq fun object' object hobject => ?_
    rw [hobject.is_eq]
    split
    · exact hcallee.rel_property.map_eq fun _ _ hp => hp.2
    · rfl
  · rfl

/-- The calls of a body are those among its calls that name a method. -/
theorem stepCalls_eq (f : Flow) (body : Tree) : f.stepCalls body =
    ((body.walkBelow (Tree.except rebindsThis)).filter fun t =>
      t.is .callExpression && (f.calledOnThis? t).isSome).filterMap fun t =>
        (f.calledOnThis? t).map (·, t) := by
  rw [stepCalls, List.filterMap_filter, List.filterMap_filter]
  refine List.filterMap_congr fun t _ => ?_
  cases t.is .callExpression <;> cases f.calledOnThis? t <;> rfl

theorem forall₂_stepCalls (hP : P.Harmless config f' f) {v b : Tree}
    (h : P.Body f'.source f.source v b) :
    List.Forall₂ (fun e' e => e'.1 = e.1) (f'.stepCalls v) (f.stepCalls b) := by
  have hquiet : ∀ (f : Flow) (t : Tree), t.isAny loudKinds = false →
      (t.is .callExpression && (f.calledOnThis? t).isSome) = false := by
    intro f t ht
    rw [← Tree.isAny_singleton, Tree.isAny_eq_false_of_subset (by decide) ht, Bool.false_and]
  have hexpression : ∀ t : Tree, t.isFunctionLike = false →
      Tree.except rebindsThis t = .enter := by
    intro t ht
    rw [Tree.except, rebindsThis, ht]
    rfl
  rw [stepCalls_eq, stepCalls_eq]
  refine List.rel_filterMap (fun u t ht => ?_) (h.forall₂_walkBelow (blind_plain (hP.deaf ?_)
    (hquiet f') (hquiet f) (fun u t ht => ?_) (fun u t ht => ?_)
    fun p _ c _ e he => .inl (hexpression c he.isFunctionLike)) fun t _ ht => hexpression t ht)
  · rw [calledOnThis?_eq ht]
    cases f.calledOnThis? t with
    | none => exact .none
    | some name => exact .some rfl
  · intro n hn
    rw [calledOnThis?_of_isMute hn]
    exact Bool.and_false _
  · rw [ht.is_eq, calledOnThis?_eq ht]
  · rw [Tree.except, Tree.except, rebindsThis, rebindsThis, ht.isFunctionLike_eq, ht.is_eq]

theorem findings_checkStepCalls (hP : P.Harmless config f' f) (config : Config)
    {c' c : FlowClass} (hc : FlowClass.Matches P f'.source f.source c' c) :
    (f'.checkStepCalls config c').map (·.finding) =
      (f.checkStepCalls config c).map (·.finding) := by
  have hinstances : List.Forall₂ (Method.Matches P f'.source f.source)
      (c'.methods.filter (!·.isStatic)) (c.methods.filter (!·.isStatic)) :=
    hc.methods.filter fun _ _ hm => by rw [hm.isStatic]
  have hnames : ∀ callee, (c'.methods.filter (!·.isStatic)).any (·.name = callee) =
      (c.methods.filter (!·.isStatic)).any (·.name = callee) := fun callee =>
    hinstances.any_eq fun _ _ hm => by rw [hm.name]
  have hcallers : List.Forall₂ (Method.Matches P f'.source f.source)
      ((c'.methods.filter (!·.isStatic)).filter (·.name ≠ config.entryMethod))
      ((c.methods.filter (!·.isStatic)).filter (·.name ≠ config.entryMethod)) :=
    hinstances.filter fun _ _ hm => by rw [hm.name]
  unfold checkStepCalls
  rw [List.map_map, List.map_map]
  refine (forall₂_firstPerKey (List.rel_flatMap hcallers fun m' m hm => ?_)).map_eq
    fun e' e he => ?_
  · have hcalls : List.Forall₂ (fun e' e => e'.1 = e.1) ((m'.body.map f'.stepCalls).getD [])
        ((m.body.map f.stepCalls).getD []) :=
      (hm.body.map fun _ _ hbody => forall₂_stepCalls hP hbody).forall₂_getD
    refine List.rel_filterMap (fun call' call hcall => ?_) hcalls
    dsimp only
    rw [hcall, hnames]
    split
    · exact .some (congrArg (·, call.1) hm.name)
    · exact .none
  · show Finding.stepCall e'.1.1 e'.1.2 _ = .stepCall e.1.1 e.1.2 _
    rw [he]

/-- **The structure of a trimmed flow is found fault with as before.** -/
theorem findings_checkStructure (h : Flow.Matches P f' f) (hP : P.Harmless config f' f)
    (config : Config) :
    (f'.checkStructure config).map (·.finding) = (f.checkStructure config).map (·.finding) := by
  have hclass := h.rel_flowClass?
  rw [checkStructure, checkStructure, List.map_append, List.map_append, h.findings_checkFlowClass]
  generalize f'.flowClass? = c', f.flowClass? = c at hclass
  cases hclass with
  | none => rfl
  | @some c' c hc =>
    have hentry := hc.rel_method? config.entryMethod
    simp only [List.map_append, findings_checkEntryMethod f' f config hc,
      findings_checkStepCalls hP config hc]
    generalize c'.method? config.entryMethod = m', c.method? config.entryMethod = m at hentry
    cases hentry with
    | none => rfl
    | some hm =>
      simp only [Option.map_some, Option.getD_some, findings_checkThrows hP config hm]

/-! ### Bubbles -/

/-- A property of an object. -/
theorem rel_property? {u t : Tree} (ht : P.Matches s' s u t) (hobject : t.is .object)
    (name : String) : Option.Rel (Entry.Matches P s' s) ((s'.classify u).property? name)
      ((s.classify t).property? name) :=
  (ht.forall₂_entries hobject).find? fun e' e he => by
    rw [← Entry.key?_erase e', he.erase, Entry.key?_erase]

/-- What a construction is given as credentials, and where it stands. -/
theorem rel_credentialsOf? {c' c : Construction}
    (hc : Construction.Matches P f'.source f.source c' c) :
    Option.Rel (fun x' x => x'.1.erase = x.1.erase ∧ ∃ p, P.Part f'.source f.source p x'.2 x.2)
      (f'.credentialsOf? c') (f.credentialsOf? c) := by
  refine hc.rel_paramsObject?.bind fun params' params ⟨hparams, hobject⟩ => ?_
  have hproperty := rel_property? hparams hobject credentialsName
  generalize (f'.source.classify params').property? credentialsName = e',
    (f.source.classify params).property? credentialsName = e at hproperty
  cases hproperty with
  | none => exact .none
  | @some e' e he =>
    have hnode := he.valueNode?
    have herase := he.erase
    cases e' with
    | property key' keyNode' value' node' =>
      cases e with
      | property key keyNode value node =>
        simp only [Entry.erase, Entry.property.injEq] at herase
        cases hnode with
        | some hnode => exact .some ⟨herase.2.2.1, hnode⟩
      | _ => simp [Entry.erase] at herase
    | spread node' => cases e <;> first | exact .none | simp [Entry.erase] at herase
    | other node' => cases e <;> first | exact .none | simp [Entry.erase] at herase

theorem findings_checkCredentials (h : Flow.Matches P f' f) :
    f'.checkCredentials.map (·.finding) = f.checkCredentials.map (·.finding) := by
  rw [checkCredentials, checkCredentials, List.map_filterMap, List.map_filterMap]
  refine h.constructions.filterMap_eq fun c' c hc => ?_
  have hcredentials := rel_credentialsOf? hc
  rw [hc.className]
  generalize f'.credentialsOf? c' = x', f.credentialsOf? c = x at hcredentials
  cases hcredentials with
  | none => rfl
  | @some x' x hx =>
    have hhardcoded : x'.1.isHardcoded = x.1.isHardcoded := by
      rw [← Argument.isHardcoded_erase, hx.1, Argument.isHardcoded_erase]
    simp only [hhardcoded]
    split <;> rfl

theorem findings_checkRegistered (h : Flow.Matches P f' f) (registry : Registry) :
    (f'.checkRegistered registry).map (·.finding) =
      (f.checkRegistered registry).map (·.finding) := by
  rw [checkRegistered, checkRegistered, List.map_map, List.map_map]
  refine (h.constructions.filter fun c' c hc => ?_).map_eq fun c' c hc => ?_
  · rw [hc.className]
  · exact congrArg Finding.unregistered hc.className

/-! ### Parameters -/

theorem findings_checkConstruction (registry : Registry) {c' c : Construction}
    (hc : Construction.Matches P f'.source f.source c' c) :
    findings (f'.checkConstruction registry c') = findings (f.checkConstruction registry c) := by
  have hparams := hc.rel_paramsObject?
  unfold checkConstruction
  rw [hc.className]
  cases registry.resolve? c.className with
  | none => rfl
  | some d =>
    generalize c'.paramsObject? = params', c.paramsObject? = params at hparams
    cases hparams with
    | none => rfl
    | @some params' params hparams =>
      refine d.contract.findings_check _ ?_
      rw [← Argument.entries_erase, ← Argument.entries_erase, hparams.1.arguesSame.argument]

theorem findings_checkParameters (h : Flow.Matches P f' f) (registry : Registry) :
    (f'.checkParameters registry).map (·.finding) =
      (f.checkParameters registry).map (·.finding) := by
  rw [checkParameters, checkParameters, List.map_map, List.map_map, List.map_flatMap,
    List.map_flatMap]
  exact h.constructions.flatMap_eq fun _ _ hc => findings_checkConstruction registry hc

end Flow.Matches

end FlowAnalysis
