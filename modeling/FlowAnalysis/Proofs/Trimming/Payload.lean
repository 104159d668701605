import FlowAnalysis.Proofs.Trimming.Checks
import FlowAnalysis.Proofs.Trimming.Types
import FlowAnalysis.Types.Payload

/-!
# Payloads of trimmed flows

A trimmed flow receives the payload that the flow receives, its variables have the scopes that they
have in the flow, and it reads the same properties.

## Main definitions

* `Payload.Matches` — the payloads of a trimmed flow and of the flow offer the same properties.
* `Flow.readKinds` — the kinds of the nodes that read properties.

## Main results

* `Flow.Matches.rel_payload?` — the payload of a trimmed flow.
* `Flow.Matches.shadows_eq` — nodes in the same places open scopes for the same names.
* `Flow.Matches.findings_checkPayload` — **the reads of a trimmed flow are found fault with as
  before.**
-/

namespace FlowAnalysis

open Syntax Trimming

variable {P : Trimming} {f' f : Flow} {config : Config} {u t v c p : Tree}

/-- The payload of a trimmed flow offers the same properties. -/
structure Payload.Matches (P : Trimming) (s' s : Source) (p' p : Payload) : Prop where
  typeName : p'.typeName = p.typeName
  pattern : P.Matches s' s p'.pattern p.pattern
  isOpen : p'.shape.isOpen = p.shape.isOpen
  has : ∀ name, p'.shape.has name = p.shape.has name

/-! ### Nodes that read properties -/

namespace Flow

/-- The kinds of the nodes that read properties. -/
def readKinds : List Kind := [.memberExpression, .subscriptExpression, .variableDeclarator]

theorem reads_of_not_isAny (f : Flow) (name : String) {t : Tree} (h : t.isAny readKinds = false) :
    f.reads name t = [] := by
  simp only [readKinds, Tree.isAny, List.any_cons, List.any_nil, Bool.or_false,
    Bool.or_eq_false_iff] at h
  simp [reads, h]

/-- The nodes that read nothing may be left out. -/
theorem flatMap_reads_filter (f : Flow) (name : String) {q : Tree → Bool}
    (h : ∀ t, q t = false → f.reads name t = []) (ts : List Tree) :
    (ts.filter q).flatMap (f.reads name) = ts.flatMap (f.reads name) := by
  induction ts with
  | nil => rfl
  | cons t ts ih =>
    rw [List.filter_cons, List.flatMap_cons, ← ih]
    split
    · rw [List.flatMap_cons]
    · next ht => rw [h t (Bool.eq_false_iff.2 ht), List.nil_append]

end Flow

namespace Flow.Matches

/-! ### The payload -/

/-- The type that a parameter is annotated with. -/
theorem rel_annotatedType (h : P.Matches f'.source f.source u t) :
    Option.Rel (P.Matches f'.source f.source) ((u.field? .type).bind Tree.firstNamed?)
      ((t.field? .type).bind Tree.firstNamed?) :=
  ((h.rel_field?_of_mem (by decide)).imp_of_eq fun v type htype hmatch =>
    And.intro hmatch (Tree.field?_eq_some htype).2).bind fun v type htype =>
      htype.1.rel_firstNamed?_of_isClosedAt fun r => by simp [Tree.isClosedAt, htype.2]

theorem shapeOf_eq (h : Flow.Matches P f' f) (hP : P.Harmless config f' f)
    (ht : P.Matches f'.source f.source u t) :
    (f'.typeEnv.shapeOf (f'.source.typeExpr u)).isOpen =
        (f.typeEnv.shapeOf (f.source.typeExpr t)).isOpen ∧
      ∀ name, (f'.typeEnv.shapeOf (f'.source.typeExpr u)).has name =
        (f.typeEnv.shapeOf (f.source.typeExpr t)).has name :=
  TypeEnv.shapeOf_congr (undocumented_typeEnv (hP.deaf_isAny (by decide)) h.trims _)
    ht.saysSame.typeExpr

theorem rel_payload? (h : Flow.Matches P f' f) (hP : P.Harmless config f' f) :
    Option.Rel (Payload.Matches P f'.source f.source) (f'.payload? f'.typeEnv)
      (f.payload? f.typeEnv) := by
  unfold payload?
  refine (h.rel_entryMethod?.imp_of_eq fun _ _ heq hm => And.intro heq hm).bind
    fun entry' entry ⟨hentry, hm⟩ => ?_
  refine (hm.parameters.head?.imp_of_eq fun _ _ heq hp => And.intro heq hp).bind
    fun parameter' parameter ⟨hparameter, hmatch⟩ => ?_
  refine (hmatch.rel_field?_of_mem (by decide)).bind fun pattern' pattern hpattern => ?_
  refine ((rel_annotatedType hmatch).imp_of_eq fun _ _ heq ht => And.intro heq ht).bind
    fun type' type ⟨htype, ht⟩ => ?_
  have hquoted := hP.quoted _ ht.mem (mem_quoted_of_annotated hentry hparameter htype)
  have hshape := h.shapeOf_eq hP ht
  exact .some ⟨congrArg String.ofList hquoted, hpattern, hshape.1, hshape.2⟩

/-! ### Scopes -/

theorem isNamed_eq (name : String) (ht : P.Matches f'.source f.source u.bare t.bare) :
    f'.isNamed name u = f.isNamed name t := by
  rw [isNamed, isNamed, ht.is_eq]
  cases hname : t.bare.is .identifier with
  | false => rfl
  | true => rw [textOf, textOf, ht.textOf_of_is hname (by decide)]

theorem bindsName_eq (name : String) {u t : Option Tree}
    (ht : Option.Rel (P.Matches f'.source f.source) u t) :
    f'.bindsName name u = f.bindsName name t := by
  refine ht.any_eq fun u t ht => ?_
  rw [ht.isAny_eq]
  cases hname : t.isAny [.identifier, .typeIdentifier] with
  | false => rfl
  | true => rw [textOf, textOf, ht.textOf_of_isAny hname (by decide)]

theorem declares_eq (name : String) (ht : P.Matches f'.source f.source u t) :
    f'.declares name u = f.declares name t := by
  unfold declares
  rw [ht.isAny_eq, ht.isAny_eq]
  split
  · exact (ht.forall₂_named_filter (by decide)).any_eq fun _ _ hd =>
      bindsName_eq name (hd.1.rel_field?_of_mem (by decide))
  · split
    · exact bindsName_eq name (ht.rel_field?_of_mem (by decide))
    · rfl

theorem rebinds_eq (name : String) (ht : P.Matches f'.source f.source u t) :
    f'.rebinds name u = f.rebinds name t := by
  refine (forall₂_parametersOf ht).any_eq fun p' p hp => ?_
  have hpattern : P.Matches f'.source f.source ((p'.field? .pattern).getD p')
      ((p.field? .pattern).getD p) := by
    have hrel := hp.rel_field?_of_mem (r := .pattern) (by decide)
    generalize p'.field? .pattern = pattern' at hrel
    generalize p.field? .pattern = pattern at hrel
    cases hrel with
    | none => exact hp
    | some hpattern => exact hpattern
  dsimp only
  rw [hpattern.is_eq]
  cases hname : ((p.field? .pattern).getD p).is .identifier with
  | false => rfl
  | true => rw [textOf, textOf, hpattern.textOf_of_is hname (by decide)]

/-- No expression declares anything. -/
theorem declares_of_isAny (f : Flow) (name : String) {t : Tree} (h : t.isAny expressionKinds) :
    f.declares name t = false := by
  have hnot : ∀ k ∉ expressionKinds, t.is k = false := fun k hk => Tree.is_eq_false_of_isAny hk h
  simp [declares, Tree.isAny, hnot .lexicalDeclaration (by decide),
    hnot .variableDeclaration (by decide), hnot .functionDeclaration (by decide),
    hnot .classDeclaration (by decide)]

theorem declares_eq_of_part (name : String) (h : P.Part f'.source f.source p v c) :
    f'.declares name v = f.declares name c := by
  rcases h.matches_or_expressions with hsame | ⟨hv, hc⟩
  · exact declares_eq name hsame
  · rw [declares_of_isAny f' name hv, declares_of_isAny f name hc]

/-- Whether the variable of a loop is taken for the same name. -/
theorem bindsName_left_eq (hP : P.Harmless config f' f) {q : Payload}
    (hq : f.payload? f.typeEnv = some q) (h : P.Matches f'.source f.source u t)
    (ht : t.is .forInStatement) :
    f'.bindsName (f.textOf q.pattern) (u.field? .left) =
      f.bindsName (f.textOf q.pattern) (t.field? .left) := by
  have hrel := (h.rel_field? .left).imp fun v c hc => hc.1
  generalize u.field? .left = left' at hrel
  generalize hleft : t.field? .left = left at hrel
  cases hrel with
  | none => rfl
  | @some v c hc =>
    have hcore := bindsName_eq (f.textOf q.pattern) (.some hc.core)
    rw [hcore]
    by_cases hopens : P.opens t c
    · obtain ⟨e, he⟩ := exists_opened hopens
      have hwrapper : c.isAny [.identifier, .typeIdentifier] = false := by
        obtain ⟨k, hk, hlabel⟩ := Tree.isAny_iff.1 he.isWrapper
        have hnot : ∀ k ∈ Tree.wrapperKinds, k ≠ .identifier ∧ k ≠ .typeIdentifier := by decide
        simp [Tree.isAny, Tree.is, hlabel, hnot k hk]
      rw [hP.loops t h.mem_nodes ht c hleft hopens q hq]
      show false = (c.isAny [.identifier, .typeIdentifier] && _)
      rw [hwrapper, Bool.false_and]
    · rw [core_of_not_opens hopens]

/-- **Nodes in the same places open scopes for the same names.** -/
theorem shadows_eq (hP : P.Harmless config f' f) {q : Payload} (hq : f.payload? f.typeEnv = some q)
    (h : P.Matches f'.source f.source u t) :
    f'.shadows (f.textOf q.pattern) u = f.shadows (f.textOf q.pattern) t := by
  unfold shadows
  rw [h.isFunctionLike_eq, h.isAny_eq, h.is_eq, h.is_eq, h.is_eq]
  split
  · exact rebinds_eq _ h
  · split
    · exact h.forall₂_named.any_eq fun v c hc => declares_eq_of_part _ hc
    · split
      · exact bindsName_eq _ (h.rel_field?_of_mem (by decide))
      · split
        · next hloop => exact bindsName_left_eq hP hq h hloop
        · split
          · exact (h.rel_field? .initializer).any_eq fun v c hc => declares_eq_of_part _ hc.1
          · rfl

/-- Of the expressions only functions open scopes. -/
theorem shadows_of_expression (f : Flow) (name : String) {t : Tree} (h : t.isAny expressionKinds)
    (hfunction : t.isFunctionLike = false) : f.shadows name t = false := by
  have hnot : ∀ k ∉ expressionKinds, t.is k = false := fun k hk => Tree.is_eq_false_of_isAny hk h
  simp [shadows, hfunction, Tree.isAny, hnot .statementBlock (by decide),
    hnot .switchBody (by decide), hnot .catchClause (by decide),
    hnot .forInStatement (by decide), hnot .forStatement (by decide)]

/-! ### Reads -/

theorem rel_patternKey? (h : P.Matches f'.source f.source u t) :
    Option.Rel (P.Matches f'.source f.source) (patternKey? u) (patternKey? t) := by
  unfold patternKey?
  rw [h.is_eq, h.is_eq, h.is_eq]
  split
  · exact .some h
  · split
    · exact h.rel_field?_of_mem (by decide)
    · split
      · next hassignment =>
        exact h.rel_field?_of_isClosedAt (by simp [Tree.isClosedAt, hassignment])
      · exact .none

/-- No expression is an element of a pattern. -/
theorem patternKey?_of_isAny {t : Tree} (h : t.isAny expressionKinds) : patternKey? t = none := by
  have hnot : ∀ k ∉ expressionKinds, t.is k = false := fun k hk => Tree.is_eq_false_of_isAny hk h
  simp [patternKey?, hnot .shorthandPropertyIdentifierPattern (by decide),
    hnot .pairPattern (by decide), hnot .objectAssignmentPattern (by decide)]

theorem forall₂_patternKeys (ht : P.Matches f'.source f.source u t) :
    List.Forall₂ (fun e' e => e'.1 = e.1) (f'.patternKeys u) (f.patternKeys t) := by
  refine ht.forall₂_named_filterMap (fun c hc => ?_) fun v c _ hc => ?_
  · rw [patternKey?_of_isAny hc]
    exact ⟨rfl, rfl⟩
  · refine (rel_patternKey? hc).bind fun key' key hkey => ?_
    rw [hkey.propertyName?]
    cases f.source.propertyName? key with
    | none => exact .none
    | some name => exact .some rfl

/-- Whether the node in a role is a name. -/
theorem any_isNamed_eq (name : String) (ht : P.Matches f'.source f.source u t) (r : Role) :
    (u.field? r).any (f'.isNamed name) = (t.field? r).any (f.isNamed name) :=
  (ht.rel_bare_field? r).any_eq fun _ _ hc => isNamed_eq name hc

/-- **Nodes in the same places read the same properties.** -/
theorem forall₂_reads (name : String) (ht : P.Matches f'.source f.source u t) :
    List.Forall₂ (fun e' e => e'.1 = e.1) (f'.reads name u) (f.reads name t) := by
  have hproperty := ht.rel_property
  have hname := ht.rel_field?_of_mem (r := .name) (by decide)
  have hindex := ht.rel_bare_field? .index
  unfold reads
  simp only [ht.is_eq, any_isNamed_eq name ht]
  split
  · generalize u.field? .property = p', t.field? .property = p at hproperty
    cases hproperty with
    | none => exact .nil
    | some hp =>
      dsimp only
      rw [hp.1.is_eq]
      split
      · exact .cons hp.2 .nil
      · exact .nil
  · split
    · generalize u.field? .index = i', t.field? .index = i at hindex
      cases hindex with
      | none => exact .nil
      | @some i' i hi =>
        dsimp only
        rw [hi.stringValue?]
        cases f.source.stringValue? i.bare with
        | none => exact .nil
        | some key =>
          dsimp only
          split
          · exact .cons rfl .nil
          · exact .nil
    · split
      · generalize u.field? .name = n', t.field? .name = n at hname
        cases hname with
        | none => exact .nil
        | some hn =>
          dsimp only
          rw [hn.is_eq]
          split
          · exact forall₂_patternKeys hn
          · exact .nil
      · exact .nil

theorem forall₂_payloadReads (hP : P.Harmless config f' f) {q' q : Payload}
    (hq : f.payload? f.typeEnv = some q) (h : Payload.Matches P f'.source f.source q' q)
    (hbody : P.Body f'.source f.source v c) :
    List.Forall₂ (fun e' e => e'.1 = e.1) (f'.payloadReads q' v) (f.payloadReads q c) := by
  unfold payloadReads
  rw [h.pattern.is_eq, h.pattern.is_eq]
  split
  · exact forall₂_patternKeys h.pattern
  · split
    · next hname =>
      have htext : f'.textOf q'.pattern = f.textOf q.pattern :=
        h.pattern.textOf_of_is hname (by decide)
      dsimp only
      rw [htext]
      -- All nodes are asked what they read; only those that read anything count.
      have hreads : ∀ (g : Flow) (ts : List Tree), (ts.filter fun t =>
          !(g.reads (f.textOf q.pattern) t).isEmpty).flatMap (g.reads _) =
            ts.flatMap (g.reads _) :=
        fun g => g.flatMap_reads_filter _ fun t ht => by simpa using ht
      rw [← hreads f', ← hreads f]
      have hquiet : ∀ (f' : Flow) (t : Tree), t.isAny loudKinds = false →
          (!(f'.reads (f.textOf q.pattern) t).isEmpty) = false := by
        intro f' t ht
        rw [reads_of_not_isAny f' _ (Tree.isAny_eq_false_of_subset (by decide) ht)]
        rfl
      have henter : ∀ t : Tree, t.isAny expressionKinds → t.isFunctionLike = false →
          Tree.except (f.shadows (f.textOf q.pattern)) t = .enter := by
        intro t ht hfunction
        rw [Tree.except, shadows_of_expression f _ ht hfunction]
        rfl
      refine List.rel_flatMap (hbody.forall₂_walkBelow (blind_plain (hP.deaf fun n hn => ?_)
        (hquiet f') (hquiet f) (fun u t ht => ?_) (fun u t ht => ?_) fun p _ c _ e he =>
          .inl (henter c he.isAny_expressionKinds he.isFunctionLike)) henter)
        fun u t ht => forall₂_reads _ ht
      · rw [reads_of_isMute hn hq]
        rfl
      · rw [(forall₂_reads (f.textOf q.pattern) ht).isEmpty_eq]
      · rw [Tree.except, Tree.except, shadows_eq hP hq ht]
    · exact .nil

/-- **The reads of a trimmed flow are found fault with as before.** -/
theorem findings_checkPayload (h : Flow.Matches P f' f) (hP : P.Harmless config f' f) :
    f'.checkPayload.map (·.finding) = f.checkPayload.map (·.finding) := by
  have hpayload := (h.rel_payload? hP).imp_of_eq fun _ _ heq hq => And.intro heq hq
  have hbody : Option.Rel (P.Body f'.source f.source) (f'.entryMethod?.bind (·.body))
      (f.entryMethod?.bind (·.body)) := h.rel_entryMethod?.bind fun _ _ hm => hm.body
  unfold checkPayload
  generalize f'.payload? f'.typeEnv = p' at hpayload
  generalize hp : f.payload? f.typeEnv = p at hpayload
  generalize f'.entryMethod?.bind (·.body) = body', f.entryMethod?.bind (·.body) = body at hbody
  cases hpayload with
  | none => rfl
  | @some p' p hq =>
    cases hbody with
    | none => rfl
    | some hbody =>
      obtain ⟨-, hq⟩ := hq
      dsimp only
      rw [hq.isOpen, hq.typeName]
      split
      · rfl
      · rw [List.map_map, List.map_map]
        refine ((forall₂_payloadReads hP hp hq hbody).filter fun e' e he => ?_).map_eq
          fun e' e he => ?_
        · rw [hq.has, he]
        · exact congrArg (Finding.payloadProperty · p.typeName) he

end Flow.Matches

end FlowAnalysis
