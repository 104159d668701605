import FlowAnalysis.Proofs.Bracing.Checks
import FlowAnalysis.Proofs.Bracing.Types
import FlowAnalysis.Proofs.Trimming.Payload
import FlowAnalysis.Types.Schema

/-!
# Payloads of flows in normal form

A flow in normal form receives the payload that the flow receives.  Its variables have the scopes
that they have in the flow, and a function that is declared in a body has the block around the body
as its scope, so fewer reads may be reads of the payload.

## Main definitions

* `Payload.Twins` — a payload of the normal form is the payload of the source.

## Main results

* `Flow.Twins.rel_payload?`, `Flow.Twins.inputSchema?_eq` — the payload and its schema.
* `Twin.shadows_eq` — a node of the normal form opens a scope for the same names.
* `Flow.Twins.thins_checkPayload` — **the reads of the normal form are reads of the source.**
-/

namespace FlowAnalysis

open Syntax

variable {s' s : Source} {named quotes : Prop} {f' f : Flow} {t' t : Tree}

/-- A payload of the normal form is the payload of the source. -/
structure Payload.Twins (quotes : Prop) (s' s : Source) (p' p : Payload) : Prop where
  typeName : quotes → p'.typeName = p.typeName
  pattern : Twin s' s p'.pattern p.pattern
  shape : p'.shape = p.shape
  declaredInFlow : p'.declaredInFlow = p.declaredInFlow

/-! ### The payload -/

/-- The type that a parameter is annotated with. -/
theorem Twin.rel_annotatedType (h : Twin s' s t' t) (ht : t.isEnclosing = false) :
    Option.Rel (Twin s' s) ((t'.field? .type).bind Tree.firstNamed?)
      ((t.field? .type).bind Tree.firstNamed?) :=
  ((h.rel_field? (Tree.isOwner_of_isEnclosing ht) .type).imp_of_eq fun _ _ hc htwin =>
    And.intro htwin (h.isOwner_of_mem ht (Tree.field?_eq_some hc).1)).bind fun _ _ hc =>
      hc.1.rel_firstNamed? hc.2

theorem Twin.mentionsOwnType_eq (h : Twin f'.source f.source t' t) (env : TypeEnv) :
    f'.mentionsOwnType env t' = f.mentionsOwnType env t := by
  have hnodes : List.Forall₂ (Twin f'.source f.source) (t'.nodes.filter (·.isAny [.typeIdentifier]))
      (t.nodes.filter (·.isAny [.typeIdentifier])) := h.forall₂_nodes (by decide)
  have hmentions : ∀ (f : Flow) (t : Tree), f.mentionsOwnType env t =
      (t.nodes.filter (·.isAny [.typeIdentifier])).any
        fun n => env.isFlowDeclared (f.source.textOf n) := by
    intro f t
    simp only [List.any_filter, Tree.isAny_singleton]
    rfl
  rw [hmentions, hmentions]
  refine (hnodes.imp_of_mem fun c' c hc htwin =>
    htwin.textOf_of_isAny (List.mem_filter.1 hc).2 (by decide)).any_eq fun _ _ htext => ?_
  rw [htext]

namespace Flow.Twins

variable (h : Flow.Twins named f' f)

include h

theorem typeEnv_eq : f'.typeEnv = f.typeEnv := h.bracing.twin_root.typeEnv _

/-- **A flow in normal form receives the payload that the flow receives.** -/
theorem rel_payload? : Option.Rel
    (Payload.Twins (∀ t ∈ f.quoted, t.isVerbatim) f'.source f.source)
    (f'.payload? f'.typeEnv) (f.payload? f.typeEnv) := by
  unfold payload?
  rw [h.typeEnv_eq]
  refine (h.rel_entryMethod?.imp_of_eq fun _ _ heq hm => And.intro heq hm).bind
    fun entry' entry ⟨hentry, hm⟩ => ?_
  refine (hm.parameters.head?.imp_of_eq fun _ _ heq hp => And.intro heq hp).bind
    fun parameter' parameter ⟨hparameter, htwin, hplain⟩ => ?_
  refine (htwin.rel_field? (Tree.isOwner_of_isEnclosing hplain) .pattern).bind
    fun pattern' pattern hpattern => ?_
  refine ((htwin.rel_annotatedType hplain).imp_of_eq fun _ _ heq ht => And.intro heq ht).bind
    fun type' type ⟨htype, ht⟩ => ?_
  refine .some ⟨fun hq => ?_, hpattern, ?_, ?_⟩
  · exact ht.textOf_of_isVerbatim (hq type (mem_quoted_of_annotated hentry hparameter htype))
  · show f.typeEnv.shapeOf (f'.source.typeExpr type') = f.typeEnv.shapeOf (f.source.typeExpr type)
    rw [ht.typeExpr]
  · dsimp only
    rw [ht.mentionsOwnType_eq, ht.typeExpr]

/-- **The schema of the payload is the same.** -/
theorem inputSchema?_eq : f'.inputSchema? = f.inputSchema? := by
  refine h.rel_payload?.bind_eq fun p' p hp => ?_
  rw [h.typeEnv_eq, Payload.schema?, Payload.schema?, hp.declaredInFlow, hp.shape]

end Flow.Twins

/-! ### Scopes -/

namespace Twin

theorem isName_eq (h : Twin f'.source f.source t' t) (name : String) :
    f'.isNamed name t' = f.isNamed name t := by
  rw [Flow.isNamed, Flow.isNamed, h.bare.is_eq]
  cases hkind : t.bare.is .identifier with
  | false => rfl
  | true => rw [show f'.textOf t'.bare = f.textOf t.bare from h.bare.textOf_of_is hkind (.inl rfl)]

/-- Whether the node in a role is a name. -/
theorem any_isName_eq (h : Twin f'.source f.source t' t) (ht : t.isOwner = false) (name : String)
    (r : Role) : (t'.field? r).any (f'.isNamed name) = (t.field? r).any (f.isNamed name) :=
  (h.rel_field? ht r).any_eq fun _ _ hc => hc.isName_eq name

theorem bindsName_eq {u' u : Option Tree} (h : Option.Rel (Twin f'.source f.source) u' u)
    (name : String) : f'.bindsName name u' = f.bindsName name u := by
  refine h.any_eq fun t' t ht => ?_
  rw [ht.isAny_eq]
  cases hkind : t.isAny [.identifier, .typeIdentifier] with
  | false => rfl
  | true => rw [show f'.textOf t' = f.textOf t from ht.textOf_of_isAny hkind (by decide)]

theorem declares_eq (h : Twin f'.source f.source t' t) (name : String) :
    f'.declares name t' = f.declares name t := by
  unfold Flow.declares
  rw [h.isAny_eq, h.isAny_eq]
  split
  · next hkind =>
    have hdeclarators := (h.forall₂_named_filter (Tree.isOwner_of_isAny hkind (by decide))
      .variableDeclarator).imp_of_mem fun _ _ hc htwin =>
        And.intro htwin (List.mem_filter.1 hc).2
    exact hdeclarators.any_eq fun _ _ hd =>
      bindsName_eq (hd.1.rel_field? (Tree.isOwner_of_is hd.2 rfl) .name) name
  · split
    · next hkind => exact bindsName_eq (h.rel_field? (Tree.isOwner_of_isAny hkind (by decide)) _) _
    · rfl

theorem rebinds_eq (h : Twin f'.source f.source t' t) (ht : t.isOwner = false) (name : String) :
    f'.rebinds name t' = f.rebinds name t := by
  refine (Flow.forall₂_parametersOf_twin h ht).any_eq fun p' p ⟨hp, hplain⟩ => ?_
  have hpattern : Twin f'.source f.source ((p'.field? .pattern).getD p')
      ((p.field? .pattern).getD p) := by
    have hfield := hp.rel_field? (Tree.isOwner_of_isEnclosing hplain) .pattern
    generalize p'.field? .pattern = pattern', p.field? .pattern = pattern at hfield
    cases hfield with
    | none => exact hp
    | some hfield => exact hfield
  dsimp only
  rw [hpattern.is_eq]
  cases hkind : ((p.field? .pattern).getD p).is .identifier with
  | false => rfl
  | true =>
    have htext := hpattern.textOf_of_is hkind (.inl rfl)
    rw [Flow.textOf, htext]
    rfl

/-- What a loop declares in its head stands in no block. -/
theorem rel_field?_of_body (h : Twin s' s t' t) {r : Role} (ht : t.body? = t.field? .body)
    (hr : r ≠ .body) : Option.Rel (Twin s' s) (t'.field? r) (t.field? r) := by
  refine h.rel_field?_of_role fun b hb hrole => ?_
  have hbody := Tree.body?_of_bareBody? hb
  rw [ht] at hbody
  exact hr (Option.some.inj (hrole.symm.trans (Tree.field?_eq_some hbody).2))

/-- **A node of the normal form opens a scope for the same names.** -/
theorem shadows_eq (h : Twin f'.source f.source t' t) (name : String) :
    f'.shadows name t' = f.shadows name t := by
  unfold Flow.shadows
  rw [h.isFunctionLike_eq, h.isAny_eq, h.is_eq, h.is_eq, h.is_eq]
  split
  · next hkind => exact h.rebinds_eq (Tree.isOwner_of_isAny hkind (by decide)) name
  · split
    · next hkind =>
      exact (h.forall₂_named (Tree.isOwner_of_isAny hkind (by decide))).any_eq
        fun _ _ hc => hc.declares_eq name
    · split
      · next hkind => exact bindsName_eq (h.rel_field? (Tree.isOwner_of_is hkind rfl) _) name
      · split
        · next hkind =>
          refine bindsName_eq (h.rel_field?_of_body ?_ (by decide)) name
          rw [Tree.body?, Tree.is_iff.1 hkind]
        · split
          · next hkind =>
            refine (h.rel_field?_of_body ?_ (by decide)).any_eq fun _ _ hc => hc.declares_eq name
            rw [Tree.body?, Tree.is_iff.1 hkind]
          · rfl

/-! ### Reads -/

theorem rel_patternKey? (h : Twin s' s t' t) :
    Option.Rel (Twin s' s) (Flow.patternKey? t') (Flow.patternKey? t) := by
  unfold Flow.patternKey?
  rw [h.is_eq, h.is_eq, h.is_eq]
  split
  · exact .some h
  · split
    · next hkind => exact h.rel_field? (Tree.isOwner_of_is hkind rfl) _
    · split
      · next hkind => exact h.rel_field? (Tree.isOwner_of_is hkind rfl) _
      · exact .none

theorem forall₂_patternKeys (h : Twin f'.source f.source t' t) (ht : t.is .objectPattern) :
    List.Forall₂ (fun e' e => e'.1 = e.1) (f'.patternKeys t') (f.patternKeys t) := by
  refine List.rel_filterMap (fun c' c hc => ?_) (h.forall₂_named (Tree.isOwner_of_is ht rfl))
  refine hc.rel_patternKey?.bind fun key' key hkey => ?_
  rw [hkey.propertyName?]
  cases f.source.propertyName? key with
  | none => exact .none
  | some name => exact .some rfl

theorem forall₂_reads (h : Twin f'.source f.source t' t) (name : String) :
    List.Forall₂ (fun e' e => e'.1 = e.1) (f'.reads name t') (f.reads name t) := by
  unfold Flow.reads
  simp only [h.is_eq]
  split
  · next hkind =>
    have hproperty := h.rel_property hkind
    simp only [h.any_isName_eq (Tree.isOwner_of_is hkind rfl)]
    generalize t'.field? .property = p', t.field? .property = p at hproperty
    cases hproperty with
    | none => exact .nil
    | some hp =>
      dsimp only
      rw [hp.1.is_eq, Flow.textOf, Flow.textOf, hp.2]
      split
      · exact .cons rfl .nil
      · exact .nil
  · split
    · next hkind =>
      have howner := Tree.isOwner_of_is hkind rfl
      have hindex := h.rel_bare_field? howner .index
      simp only [h.any_isName_eq howner]
      generalize t'.field? .index = i', t.field? .index = i at hindex
      cases hindex with
      | none => exact .nil
      | @some i' i hi =>
        dsimp only
        rw [hi.stringValue?]
        cases f.source.stringValue? i.bare with
        | none => exact .nil
        | some key =>
          dsimp only
          split
          · exact .cons rfl .nil
          · exact .nil
    · split
      · next hkind =>
        have howner := Tree.isOwner_of_is hkind rfl
        have hname := h.rel_field? howner .name
        simp only [h.any_isName_eq howner]
        generalize t'.field? .name = n', t.field? .name = n at hname
        cases hname with
        | none => exact .nil
        | some hn =>
          dsimp only
          rw [hn.is_eq]
          split
          · next hpattern => exact hn.forall₂_patternKeys (Bool.and_eq_true_iff.1 hpattern).2
          · exact .nil
      · exact .nil

end Twin

/-- What is read of the payload in the normal form is read in the source. -/
theorem Payload.Twins.thins_payloadReads {p' p : Payload}
    (hp : Payload.Twins quotes f'.source f.source p' p) {body' body : Tree}
    (hbody : Twin f'.source f.source body' body) :
    Thins False (fun e' e => e'.1 = e.1) (f'.payloadReads p' body') (f.payloadReads p body) := by
  unfold Flow.payloadReads
  rw [hp.pattern.is_eq, hp.pattern.is_eq]
  split
  · next hkind => exact .of_forall₂ (hp.pattern.forall₂_patternKeys hkind)
  · split
    · next hkind =>
      have htext := hp.pattern.textOf_of_is hkind (.inl rfl)
      dsimp only
      rw [Flow.textOf, htext, ← Flow.textOf,
        ← f'.flatMap_reads_filter _ fun _ => f'.reads_of_not_isAny _,
        ← f.flatMap_reads_filter _ fun _ => f.reads_of_not_isAny _]
      -- The block around a body may open a scope, which is left out.
      refine (hbody.thins_walkBelow (Search.follows_isAny (by decide) (fun _ _ ht => ?_)
        False.elim)).flatMap fun _ _ ht => ht.forall₂_reads _
      rw [Tree.except, Tree.except, ht.shadows_eq]
    · exact .of_forall₂ .nil

/-- **The reads of the normal form are reads of the source.** -/
theorem Flow.Twins.thins_checkPayload (h : Flow.Twins named f' f) :
    Thins False (Finding.Agrees (∀ t ∈ f.quoted, t.isVerbatim))
      (f'.checkPayload.map (·.finding)) (f.checkPayload.map (·.finding)) := by
  have hpayload := h.rel_payload?
  have hbody : Option.Rel (Twin f'.source f.source) (f'.entryMethod?.bind (·.body))
      (f.entryMethod?.bind (·.body)) := h.rel_entryMethod?.bind fun _ _ hm => hm.body
  unfold checkPayload
  generalize f'.payload? f'.typeEnv = p', f.payload? f.typeEnv = p at hpayload
  generalize f'.entryMethod?.bind (·.body) = body', f.entryMethod?.bind (·.body) = body at hbody
  cases hpayload with
  | none => exact .of_forall₂ .nil
  | @some p' p hp =>
    cases hbody with
    | none => exact .of_forall₂ .nil
    | some hbody =>
      dsimp only
      rw [hp.shape]
      split
      · exact .of_forall₂ .nil
      · rw [List.map_map, List.map_map]
        refine ((hp.thins_payloadReads hbody).filter fun e' e he => ?_).map fun e' e he => ?_
        · rw [he]
        · refine ⟨rfl, fun hq => ?_⟩
          show Finding.payloadProperty e'.1 p'.typeName = .payloadProperty e.1 p.typeName
          rw [he, hp.typeName hq]

end FlowAnalysis
