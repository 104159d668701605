import FlowAnalysis.Proofs.Reordering.Flow
import FlowAnalysis.Proofs.Reordering.Types
import FlowAnalysis.Proofs.Scoping
import FlowAnalysis.Proofs.Syntax.Sources

/-!
# Payloads of flows with their declarations in another order

The order in which a flow declares its types makes no difference to the properties that its payload
offers.  Nor does it make one to what the entry method reads outside of declarations; what it reads
inside one, by asking for the type of an expression, goes with the declaration, into a scope where
the name of the payload may stand for something else.

## Main definitions

* `Payload.messages` — what is said about reads of a payload.
* `Flow.declaredMessages` — what is said about the reads inside declarations.

## Main results

* `Flow.Fits.rel_payload?` — the payload offers properties of the same names.
* `Flow.Fits.shadows_eq`, `Flow.Fits.reads_eq` — scopes, and reads outside of declarations.
* `Flow.Fits.perm_messages_iff` — the messages are the same but for the order if and only if those
  about reads inside declarations are.
* `Syntax.Source.Reorders.perm_messages_checkPayload` — **if the entry method holds no declarations,
  the messages are the same.**
-/

namespace FlowAnalysis

open Syntax

variable {s' s : Source} {f' f : Flow} {t' t : Tree}

/-! ### Texts -/

/-- Names are a matter of their text. -/
theorem Slot.isText_eq (h : Slot s' s t' t) (ks : List Kind) (hks : ∀ k ∈ ks, k ∈ writtenKinds)
    (name : String) : (t'.isAny ks && decide (s'.textOf t' = name)) =
      (t.isAny ks && decide (s.textOf t = name)) := by
  have hdeclarations : ∀ k ∈ writtenKinds, k ∉ declarationKinds := by decide
  rw [h.isAny_eq fun k hk => hdeclarations k (hks k hk)]
  cases hkind : t.isAny ks with
  | false => rfl
  | true =>
    obtain ⟨k, hk, hlabel⟩ := Tree.isAny_iff.1 hkind
    cases h with
    | blank _ hdeclaration _ =>
      have hnot := isAny_of_isTypeDeclaration (fun k hk => hdeclarations k (hks k hk)) hdeclaration
      simp [hnot] at hkind
    | fits hfits => rw [(hfits.alike (hks k hk) (Tree.is_iff.2 hlabel)).textOf]

namespace Fits

variable (h : Fits s' s t' t)

include h

/-- Strings are a matter of their text. -/
theorem stringValue?_eq : s'.stringValue? t' = s.stringValue? t := by
  by_cases hwritten : isWritten t
  · exact (h.written hwritten).stringValue?
  · -- Otherwise both are no strings.
    simp only [isWritten, Bool.or_eq_true, not_or, Bool.not_eq_true] at hwritten
    have hstring : t.is .string = false := by
      rw [Bool.eq_false_iff]
      intro hstring
      have hkind : t.isAny writtenKinds :=
        Tree.isAny_iff.2 ⟨.string, by decide, Tree.is_iff.1 hstring⟩
      simp [hkind] at hwritten
    have htemplate : (t'.is .templateString &&
        !t'.children.any (·.is .templateSubstitution)) = false := by
      rw [Tree.is_eq_of_label h.label, ← hwritten.2]
      cases hkind : t.is .templateString with
      | false => rfl
      | true =>
        have hchildren := h.forall₂_children (isAny_statementHolders (by decide) hkind)
        rw [hchildren.any_eq fun c' c hc => Tree.is_eq_of_label hc.1.label .templateSubstitution]
    unfold Source.stringValue?
    rw [Tree.is_eq_of_label h.label .string, hstring, htemplate, hwritten.2]
    simp

/-- Names of properties are a matter of their text. -/
theorem propertyName?_eq : s'.propertyName? t' = s.propertyName? t := by
  unfold Source.propertyName?
  rw [Tree.isAny_eq_of_label h.label, Tree.is_eq_of_label h.label, h.stringValue?_eq]
  split
  · next hname =>
    obtain ⟨k, hk, hlabel⟩ := Tree.isAny_iff.1 hname
    have hkind : ∀ k ∈ [Kind.propertyIdentifier, .privatePropertyIdentifier,
        .shorthandPropertyIdentifier, .shorthandPropertyIdentifierPattern, .identifier, .number],
        k ∈ writtenKinds := by decide
    rw [(h.alike (hkind k hk) (Tree.is_iff.2 hlabel)).textOf]
  · rfl

end Fits

/-! ### The payload -/

/-- A payload is received by the same name or pattern, and offers properties of the same names. -/
structure Payload.Fits (s' s : Source) (p' p : Payload) : Prop where
  typeName : p'.typeName = p.typeName
  pattern : FlowAnalysis.Fits s' s p'.pattern p.pattern
  shape : p'.shape.SameNames p.shape

namespace Flow.Fits

variable (h : Flow.Fits f' f)

include h

theorem rel_body : Option.Rel (FlowAnalysis.Fits f'.source f.source)
    (f'.entryMethod?.bind (·.body)) (f.entryMethod?.bind (·.body)) :=
  h.entryMethod.bind fun _ _ hm => hm.body

/-- **The payload offers properties of the same names.** -/
theorem rel_payload? : Option.Rel (Payload.Fits f'.source f.source) (f'.payload? f'.typeEnv)
    (f.payload? f.typeEnv) := by
  unfold payload?
  refine h.entryMethod.bind fun entry' entry hentry => ?_
  refine hentry.parameters.head?.bind fun parameter' parameter hparameter => ?_
  refine (hparameter.rel_field? .pattern).bind fun pattern' pattern hpattern => ?_
  refine (hparameter.rel_type.bind fun _ _ htype => htype.firstNamed?).bind
    fun type' type htype => ?_
  refine .some ⟨htype.textOf, hpattern, ?_⟩
  show (f'.typeEnv.shapeOf (f'.source.typeExpr type')).SameNames _
  rw [htype.typeExpr]
  exact h.reorders.sameNames_shapeOf builtinEvents _

end Flow.Fits

/-! ### Scopes -/

theorem Fits.isNamed_eq (h : Fits f'.source f.source t' t) (name : String) :
    f'.isNamed name t' = f.isNamed name t := by
  have htext := (Slot.fits h.bare).isText_eq [.identifier] (by decide) name
  rwa [Tree.isAny_singleton, Tree.isAny_singleton] at htext

theorem bindsName_eq_of_slots {o' o : Option Tree}
    (h : Option.Rel (Slot f'.source f.source) o' o) (name : String) :
    f'.bindsName name o' = f.bindsName name o :=
  h.any_eq fun _ _ ht => ht.isText_eq _ (by decide) name

/-- No declaration of a type introduces a variable. -/
theorem declares_of_isTypeDeclaration (f : Flow) (name : String) (h : isTypeDeclaration t) :
    f.declares name t = false := by
  have hvariable : t.isAny [.lexicalDeclaration, .variableDeclaration] = false :=
    isAny_of_isTypeDeclaration (by decide) h
  have hnamed : t.isAny [.functionDeclaration, .classDeclaration] = false :=
    isAny_of_isTypeDeclaration (by decide) h
  simp [Flow.declares, hvariable, hnamed]

theorem Slot.declares_eq (h : Slot f'.source f.source t' t) (name : String) :
    f'.declares name t' = f.declares name t := by
  cases h with
  | blank h' h _ =>
    rw [declares_of_isTypeDeclaration f' name h', declares_of_isTypeDeclaration f name h]
  | fits h =>
    unfold Flow.declares
    rw [Tree.isAny_eq_of_label h.label, Tree.isAny_eq_of_label h.label]
    split
    · next hvariable =>
      have hplain : t.isAny statementHolders = false :=
        isAny_eq_false_of_disjoint (by decide) hvariable
      have hdeclarators := (h.forall₂_named hplain).filter fun c' c hc =>
        Tree.is_eq_of_label hc.label .variableDeclarator
      have hbinds : List.Forall₂ (fun d' d : Tree => f'.bindsName name (d'.field? .name) =
          f.bindsName name (d.field? .name)) _ _ := hdeclarators.imp_of_mem fun d' d hd hfits => by
        have hdeclarator := isAny_statementHolders (by decide) (List.mem_filter.1 hd).2
        exact bindsName_eq_of_slots ((hfits.rel_field? hdeclarator .name).imp fun _ _ => .fits) name
      exact hbinds.any_eq fun _ _ hd => hd
    · split
      · next hdeclaration =>
        have hplain : t.isAny statementHolders = false :=
          isAny_eq_false_of_disjoint (by decide) hdeclaration
        exact bindsName_eq_of_slots ((h.rel_field? hplain .name).imp fun _ _ => .fits) name
      · rfl

theorem Fits.rebinds_eq (h : Fits f'.source f.source t' t)
    (hholder : t.isAny statementHolders = false) (name : String) :
    f'.rebinds name t' = f.rebinds name t := by
  refine (h.forall₂_parametersOf hholder).any_eq fun p' p hp => ?_
  have hpattern : Fits f'.source f.source ((p'.field? .pattern).getD p')
      ((p.field? .pattern).getD p) := by
    have hfield := hp.rel_field? .pattern
    generalize p'.field? .pattern = q', p.field? .pattern = q at hfield
    cases hfield with
    | none => exact hp.fits
    | some hq => exact hq
  have htext := (Slot.fits hpattern).isText_eq [.identifier] (by decide) name
  rwa [Tree.isAny_singleton, Tree.isAny_singleton] at htext

/-- **Nodes that say the same beside declarations open scopes for the same names.** -/
theorem Fits.shadows_eq (h : Fits f'.source f.source t' t) (name : String) :
    f'.shadows name t' = f.shadows name t := by
  unfold Flow.shadows
  rw [Tree.isFunctionLike, Tree.isFunctionLike, Tree.isAny_eq_of_label h.label,
    Tree.isAny_eq_of_label h.label, Tree.is_eq_of_label h.label, Tree.is_eq_of_label h.label,
    Tree.is_eq_of_label h.label]
  split
  · next hfunction =>
    exact h.rebinds_eq (isAny_eq_false_of_disjoint (by decide) hfunction) name
  · split
    · exact h.forall₂_named_slots.any_eq fun _ _ hc => hc.declares_eq name
    · split
      · exact bindsName_eq_of_slots (h.rel_slot_field? _) name
      · split
        · exact bindsName_eq_of_slots (h.rel_slot_field? _) name
        · split
          · exact (h.rel_slot_field? _).any_eq fun _ _ hc => hc.declares_eq name
          · rfl

/-! ### Reads -/

/-- The keys that a pattern reads. -/
theorem Fits.patternKeys_eq (h : Fits f'.source f.source t' t)
    (hholder : t.isAny statementHolders = false) :
    (f'.patternKeys t').map (·.1) = (f.patternKeys t).map (·.1) := by
  rw [Flow.patternKeys, Flow.patternKeys, List.map_filterMap, List.map_filterMap]
  refine (h.forall₂_named hholder).filterMap_eq fun c' c hc => ?_
  have hkey : Option.Rel (Fits f'.source f.source) (Flow.patternKey? c') (Flow.patternKey? c) := by
    unfold Flow.patternKey?
    rw [Tree.is_eq_of_label hc.label, Tree.is_eq_of_label hc.label, Tree.is_eq_of_label hc.label]
    split
    · exact .some hc
    · split
      · next hpair => exact hc.rel_field? (isAny_statementHolders (by decide) hpair) .key
      · split
        · next hdefault => exact hc.rel_field? (isAny_statementHolders (by decide) hdefault) .left
        · exact .none
  generalize Flow.patternKey? c' = key', Flow.patternKey? c = key at hkey
  cases hkey with
  | none => rfl
  | @some key' key hkey =>
    rw [Option.bind_some, Option.bind_some, hkey.propertyName?_eq, Option.map_map, Option.map_map]
    rfl

/-- Whether the node in a role is a name. -/
theorem Fits.any_isNamed_eq (h : Fits f'.source f.source t' t)
    (hholder : t.isAny statementHolders = false) (name : String) (r : Role) :
    (t'.field? r).any (f'.isNamed name) = (t.field? r).any (f.isNamed name) :=
  (h.rel_field? hholder r).any_eq fun _ _ hc => hc.isNamed_eq name

/-- **Nodes that say the same beside declarations read the same.** -/
theorem Fits.reads_eq (h : Fits f'.source f.source t' t) (name : String) :
    (f'.reads name t').map (·.1) = (f.reads name t).map (·.1) := by
  unfold Flow.reads
  rw [Tree.is_eq_of_label h.label, Tree.is_eq_of_label h.label, Tree.is_eq_of_label h.label]
  split
  · next hmember =>
    have hplain := isAny_statementHolders (by decide) hmember
    have hproperty := h.rel_field? hplain .property
    simp only [h.any_isNamed_eq hplain]
    generalize t'.field? .property = p', t.field? .property = p at hproperty
    cases hproperty with
    | none => rfl
    | @some p' p hp =>
      dsimp only
      rw [Tree.is_eq_of_label hp.label]
      split
      · next hread =>
        have hkind := (Bool.and_eq_true_iff.1 hread).2
        exact congrArg (fun text => [text]) (hp.alike (by decide) hkind).textOf
      · rfl
  · split
    · next hsubscript =>
      have hplain := isAny_statementHolders (by decide) hsubscript
      have hindex := h.rel_field? hplain .index
      simp only [h.any_isNamed_eq hplain]
      generalize t'.field? .index = i', t.field? .index = i at hindex
      cases hindex with
      | none => rfl
      | @some i' i hi =>
        dsimp only
        rw [hi.bare.stringValue?_eq]
        cases f.source.stringValue? i.bare with
        | none => rfl
        | some key =>
          dsimp only
          split <;> rfl
    · split
      · next hdeclarator =>
        have hplain := isAny_statementHolders (by decide) hdeclarator
        have hname := h.rel_field? hplain .name
        simp only [h.any_isNamed_eq hplain]
        generalize t'.field? .name = n', t.field? .name = n at hname
        cases hname with
        | none => rfl
        | @some n' n hn =>
          dsimp only
          rw [Tree.is_eq_of_label hn.label]
          split
          · next hpattern =>
            have hkind := (Bool.and_eq_true_iff.1 hpattern).2
            exact hn.patternKeys_eq (isAny_statementHolders (by decide) hkind)
          · rfl
      · rfl

/-! ### Messages -/

/-- What is said about reads of properties of a payload. -/
def Payload.messages (p : Payload) (names : List String) : List String :=
  if p.shape.isOpen then []
  else (names.filter fun name => !p.shape.has name).map fun name =>
    (Finding.payloadProperty name p.typeName).message

theorem Payload.messages_append (p : Payload) (names names' : List String) :
    p.messages (names ++ names') = p.messages names ++ p.messages names' := by
  unfold messages
  split
  · rfl
  · rw [List.filter_append, List.map_append]

theorem Payload.messages_perm (p : Payload) {names names' : List String} (h : names.Perm names') :
    (p.messages names).Perm (p.messages names') := by
  unfold messages
  split
  · exact .nil
  · exact (h.filter _).map _

/-- The same is said about reads of payloads that offer properties of the same names. -/
theorem Payload.Fits.messages_eq {p' p : Payload} (h : Payload.Fits s' s p' p) :
    p'.messages = p.messages := by
  funext names
  unfold messages
  rw [h.shape.isOpen, h.typeName]
  simp only [h.shape.has_eq]

namespace Flow

/-- The declarations of types below a node in which a name means what it means there. -/
def declarationsBelow (f : Flow) (name : String) (t : Tree) : List Tree :=
  t.children.flatMap (declarationsOutside (f.shadows name))

/-- The properties of the payload that the entry method reads outside of declarations. -/
def outerReads (f : Flow) (p : Payload) (body : Tree) : List (String × Tree) :=
  if p.pattern.is .objectPattern then f.patternKeys p.pattern
  else if p.pattern.is .identifier then
    let name := f.textOf p.pattern
    (body :: body.children.flatMap (nodesOutside (f.shadows name))).flatMap (f.reads name)
  else []

/-- The properties of the payload that the entry method reads inside declarations. -/
def declaredReads (f : Flow) (p : Payload) (body : Tree) : List (String × Tree) :=
  if p.pattern.is .identifier then
    let name := f.textOf p.pattern
    (f.declarationsBelow name body).flatMap fun d =>
      (d.walk (Tree.except (f.shadows name))).flatMap (f.reads name)
  else []

/-- What is said about the reads inside declarations. -/
def declaredMessages (f : Flow) : List String :=
  match f.payload? f.typeEnv, f.entryMethod?.bind (·.body) with
  | some p, some body => p.messages ((f.declaredReads p body).map (·.1))
  | _, _ => []

theorem declaredMessages_eq_nil {f : Flow}
    (h : (f.entryMethod?.bind (·.body)).any (·.nodes.any isTypeDeclaration) = false) :
    f.declaredMessages = [] := by
  unfold declaredMessages
  generalize f.payload? f.typeEnv = p, f.entryMethod?.bind (·.body) = body at h
  cases p with
  | none => rfl
  | some p =>
    cases body with
    | none => rfl
    | some body =>
      have hbelow : ∀ name, f.declarationsBelow name body = [] := by
        intro name
        refine List.flatMap_eq_nil_iff.2 fun c hc => declarationsOutside_eq_nil _ ?_
        refine List.any_eq_false.2 fun n hn => List.any_eq_false.1 h n ?_
        exact Tree.nodes_subset hc n hn
      dsimp only
      simp [declaredReads, hbelow, Payload.messages]

/-- What is said about all reads of the payload. -/
theorem messages_checkPayload (f : Flow) : f.checkPayload.map (·.message) =
    match f.payload? f.typeEnv, f.entryMethod?.bind (·.body) with
    | some p, some body => p.messages ((f.payloadReads p body).map (·.1))
    | _, _ => [] := by
  unfold checkPayload
  generalize f.payload? f.typeEnv = p, f.entryMethod?.bind (·.body) = body
  cases p with
  | none => rfl
  | some p =>
    cases body with
    | none => rfl
    | some body =>
      dsimp only
      unfold Payload.messages
      split
      · rfl
      · rw [List.map_map, List.filter_map, List.map_map]
        rfl

/-- **The reads are those outside and those inside declarations.** -/
theorem perm_payloadReads (f : Flow) (p : Payload) (body : Tree) :
    (f.payloadReads p body).Perm (f.outerReads p body ++ f.declaredReads p body) := by
  unfold payloadReads outerReads declaredReads
  split
  · next hpattern =>
    have hname : p.pattern.is .identifier = false :=
      Tree.is_eq_false_of (Tree.is_iff.1 hpattern) (by decide)
    simp [hname]
  · split
    · dsimp only
      rw [← List.flatMap_assoc, ← List.flatMap_append]
      exact (perm_walkBelow _ body).flatMap_right _
    · exact .nil

theorem perm_messages_payloadReads (f : Flow) (p : Payload) (body : Tree) :
    (p.messages ((f.payloadReads p body).map (·.1))).Perm
      (p.messages ((f.outerReads p body).map (·.1)) ++
        p.messages ((f.declaredReads p body).map (·.1))) := by
  rw [← p.messages_append, ← List.map_append]
  exact p.messages_perm ((f.perm_payloadReads p body).map _)

end Flow

/-- **What is read outside of declarations is the same.** -/
theorem Payload.Fits.outerReads_eq {p' p : Payload} {body' body : Tree}
    (h : Payload.Fits f'.source f.source p' p)
    (hbody : FlowAnalysis.Fits f'.source f.source body' body) :
    (f'.outerReads p' body').map (·.1) = (f.outerReads p body).map (·.1) := by
  unfold Flow.outerReads
  rw [Tree.is_eq_of_label h.pattern.label, Tree.is_eq_of_label h.pattern.label]
  split
  · next hpattern =>
    exact h.pattern.patternKeys_eq (isAny_statementHolders (by decide) hpattern)
  · split
    · next hpattern =>
      have htext : f'.textOf p'.pattern = f.textOf p.pattern :=
        (h.pattern.alike (by decide) hpattern).textOf
      dsimp only
      rw [htext, List.map_flatMap, List.map_flatMap]
      have hnodes := hbody.forall₂_slots.flatMap_of_mem fun c' c _ hc =>
        hc.forall₂_nodesOutside _ _ fun _ _ ht => ht.shadows_eq (f.textOf p.pattern)
      exact List.Forall₂.flatMap_eq (.cons hbody hnodes) fun _ _ ht => ht.reads_eq _
    · rfl

/-- **The messages are the same but for the order if and only if those about reads inside
declarations are.** -/
theorem Flow.Fits.perm_messages_iff (h : Flow.Fits f' f) :
    (f'.checkPayload.map (·.message)).Perm (f.checkPayload.map (·.message)) ↔
      f'.declaredMessages.Perm f.declaredMessages := by
  have hpayload := h.rel_payload?
  have hbody := h.rel_body
  rw [Flow.messages_checkPayload, Flow.messages_checkPayload, Flow.declaredMessages,
    Flow.declaredMessages]
  generalize f'.payload? f'.typeEnv = p', f.payload? f.typeEnv = p at hpayload
  generalize f'.entryMethod?.bind (·.body) = body', f.entryMethod?.bind (·.body) = body at hbody
  cases hpayload with
  | none => simp
  | @some p' p hp =>
    cases hbody with
    | none => simp
    | @some body' body hbody =>
      dsimp only
      have hall' := f'.perm_messages_payloadReads p' body'
      have hall := f.perm_messages_payloadReads p body
      -- What is said about the reads outside of declarations is the same on both sides.
      rw [hp.messages_eq, hp.outerReads_eq hbody] at hall'
      rw [hp.messages_eq]
      constructor
      · intro hperm
        exact (List.perm_append_left_iff _).1 (hall'.symm.trans (hperm.trans hall))
      · intro hperm
        exact hall'.trans (((List.perm_append_left_iff _).2 hperm).trans hall.symm)

namespace Syntax.Source.Reorders

/-- **Sources with their declarations in another order**: their payloads are open or not together,
and offer properties of the same names; and the messages about the payload are the same but for the
order if and only if those about reads inside declarations are. -/
theorem sameNames_payload_and_perm_messages_iff (h : s'.Reorders s) (registry : Registry)
    (config : Config) :
    let f' := Flow.of s' registry config
    let f := Flow.of s registry config
    Option.Rel (fun p' p => p'.shape.SameNames p.shape) (f'.payload? f'.typeEnv)
        (f.payload? f.typeEnv) ∧
      ((f'.checkPayload.map (·.message)).Perm (f.checkPayload.map (·.message)) ↔
        f'.declaredMessages.Perm f.declaredMessages) :=
  have hfits := h.fits_of registry config
  ⟨hfits.rel_payload?.imp fun _ _ hp => hp.shape, hfits.perm_messages_iff⟩

/-- **If the entry method holds no declarations, the messages are the same** but for the order. -/
theorem perm_messages_checkPayload (h : s'.Reorders s) (registry : Registry) (config : Config)
    (hnone : (((Flow.of s registry config).entryMethod?.bind (·.body)).any
      (·.nodes.any isTypeDeclaration)) = false) :
    ((Flow.of s' registry config).checkPayload.map (·.message)).Perm
      ((Flow.of s registry config).checkPayload.map (·.message)) := by
  have hfits := h.fits_of registry config
  have hnone' := (hfits.rel_body.any_eq fun _ _ ht =>
    (Slot.fits ht).any_isTypeDeclaration_eq).trans hnone
  refine hfits.perm_messages_iff.2 ?_
  rw [Flow.declaredMessages_eq_nil hnone', Flow.declaredMessages_eq_nil hnone]

end Syntax.Source.Reorders

/-! ### A scope in which the payload cannot be read -/

/-- An analysis in which classes extend `B` and flows begin in `h`. -/
def shadowingConfig : Config := { Config.standard with baseClass := "B", entryMethod := "h" }

/-- A flow that asks for the type of a property where another variable has the name of the
payload. -/
def shadowedText : String :=
  "class F extends B\x7bh(p:\x7b\x7d)\x7b\x7blet p;type Q=typeof p.z\x7dtype R=1\x7d\x7d"

/-- The flow with its declarations exchanged: it asks for the type where the name is that of the
payload. -/
def exposedText : String :=
  "class F extends B\x7bh(p:\x7b\x7d)\x7b\x7blet p;type R=1\x7dtype Q=typeof p.z\x7d\x7d"

/-- What is found in the one flow and in the other one. -/
theorem messages_exposedText : ∃ s' s, (Source.parse exposedText = .ok s' ∧
    Source.parse shadowedText = .ok s ∧ s'.Reorders s) ∧
      (Flow.of s' (.ofList []) shadowingConfig).checkPayload.map (·.message) =
        [(Finding.payloadProperty "z" "\x7b\x7d").message] ∧
      (Flow.of s (.ofList []) shadowingConfig).checkPayload.map (·.message) = [] := by
  have hread : (Source.parse exposedText).toOption.any fun s' =>
      (Source.parse shadowedText).toOption.any fun s => decide (s'.Reorders s) &&
        decide ((Flow.of s' (.ofList []) shadowingConfig).checkPayload.map (·.finding) =
          [.payloadProperty "z" "\x7b\x7d"]) &&
        decide ((Flow.of s (.ofList []) shadowingConfig).checkPayload.map (·.finding) = []) := by
    decide +kernel
  obtain ⟨s', hs', hread⟩ := Option.any_eq_true _ _ |>.1 hread
  obtain ⟨s, hs, hread⟩ := Option.any_eq_true _ _ |>.1 hread
  simp only [Bool.and_eq_true, decide_eq_true_eq] at hread
  obtain ⟨⟨hreorders, hexposed⟩, hshadowed⟩ := hread
  have hmessages : ∀ f : Flow, f.checkPayload.map (·.message) =
      (f.checkPayload.map (·.finding)).map Finding.message := fun f => List.map_map.symm
  refine ⟨s', s, ⟨eq_ok_of_toOption hs', eq_ok_of_toOption hs, hreorders⟩, ?_, ?_⟩
  · rw [hmessages, hexposed, List.map_singleton]
  · rw [hmessages, hshadowed, List.map_nil]

theorem not_perm_messages_exposedText : ∃ s' s, (Source.parse exposedText = .ok s' ∧
    Source.parse shadowedText = .ok s ∧ s'.Reorders s) ∧
      ¬ ((Flow.of s' (.ofList []) shadowingConfig).checkPayload.map (·.message)).Perm
        ((Flow.of s (.ofList []) shadowingConfig).checkPayload.map (·.message)) := by
  obtain ⟨s', s, hinput, hexposed, hshadowed⟩ := messages_exposedText
  refine ⟨s', s, hinput, ?_⟩
  rw [hexposed, hshadowed]
  exact fun hperm => List.cons_ne_nil _ _ hperm.eq_nil

theorem sameNames_payload_and_perm_messages_iff_exposedText : ∃ s' s,
    (Source.parse exposedText = .ok s' ∧ Source.parse shadowedText = .ok s ∧ s'.Reorders s) ∧
      Option.Rel (fun p' p => p'.shape.SameNames p.shape)
        ((Flow.of s' (.ofList []) shadowingConfig).payload?
          (Flow.of s' (.ofList []) shadowingConfig).typeEnv)
        ((Flow.of s (.ofList []) shadowingConfig).payload?
          (Flow.of s (.ofList []) shadowingConfig).typeEnv) ∧
      ¬ (Flow.of s' (.ofList []) shadowingConfig).declaredMessages.Perm
        (Flow.of s (.ofList []) shadowingConfig).declaredMessages := by
  obtain ⟨s', s, hinput, hexposed, hshadowed⟩ := messages_exposedText
  obtain ⟨hpayload, hiff⟩ :=
    hinput.2.2.sameNames_payload_and_perm_messages_iff (.ofList []) shadowingConfig
  refine ⟨s', s, hinput, hpayload, fun hdeclared => ?_⟩
  have hperm := hiff.2 hdeclared
  rw [hexposed, hshadowed] at hperm
  exact List.cons_ne_nil _ _ hperm.eq_nil

end FlowAnalysis
