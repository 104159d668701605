import FlowAnalysis.Proofs.Bracing.Walk
import FlowAnalysis.Proofs.Trimming.Types

/-!
# Types in a normal form

No statement stands among the parts of a type, so a type says in the normal form what it said in the
source, documentation included.

## Main results

* `Twin.saysAlike` — **a type says in the normal form what it said in the source.**
* `Twin.typeDecls`, `Twin.typeEnv` — so do the declarations.
-/

namespace FlowAnalysis

open Syntax

/-- What two nodes say as types and as members, and what the types inside them say, is the same. -/
structure SaysAlike (s' s : Source) (t' t : Tree) : Prop where
  typeExpr : s'.typeExpr t' = s.typeExpr t
  typeExprsBelow : t.isOwner = false → s'.typeExprsBelow t' = s.typeExprsBelow t
  member : ∀ doc, s'.member doc t' = s.member doc t

namespace Twin

variable {s' s : Source} {t' t : Tree} {k : Kind}

theorem literalTypeOf (h : Twin s' s t' t) (ht : t.isVerbatim) :
    s'.literalTypeOf t' = s.literalTypeOf t := by
  unfold Source.literalTypeOf
  rw [h.label, h.stringValue?, h.chars_of_isVerbatim ht]

theorem docOf? (h : Twin s' s t' t) : s'.docOf? t' = s.docOf? t := by
  unfold Source.docOf?
  rw [h.is_eq]
  split
  · next hcomment => rw [h.chars_of_is hcomment (.inl rfl)]
  · rfl

/-- Nodes in the same places say the same as members, once each of them does. -/
theorem members_eq {ts' ts : List Tree} (h : List.Forall₂ (fun c' c => Twin s' s c' c ∧
    ∀ doc, s'.member doc c' = s.member doc c) ts' ts) (doc : Option String) :
    s'.members doc ts' = s.members doc ts := by
  induction h generalizing doc with
  | nil => rfl
  | cons hc _ ih => rw [Source.members, Source.members, hc.2, hc.1.docOf?, ih]

section Children

variable (h : Twin s' s t' t) (ih : ∀ c ∈ t.children, ∀ c', Twin s' s c' c → SaysAlike s' s c' c)

include h ih

theorem map_typeExpr_named (ht : t.isOwner = false) :
    t'.named.map s'.typeExpr = t.named.map s.typeExpr := by
  have hnamed := (h.forall₂_named ht).imp_of_mem fun c' c hc htwin =>
    (ih c (Tree.mem_children_of_named hc) c' htwin).typeExpr
  exact hnamed.map_eq fun _ _ => id

theorem map_typeExpr_firstNamed? (ht : t.isOwner = false) :
    t'.firstNamed?.map s'.typeExpr = t.firstNamed?.map s.typeExpr := by
  rw [Tree.firstNamed?, Tree.firstNamed?, ← List.head?_map, ← List.head?_map,
    h.map_typeExpr_named ih ht]

theorem members_children (ht : t.isEnclosing = false) (doc : Option String) :
    s'.members doc t'.children = s.members doc t.children :=
  members_eq ((h.forall₂_children ht).imp_of_mem fun c' c hc htwin =>
    ⟨htwin.2, (ih c hc c' htwin.2).member⟩) doc

theorem typeExpr_of_children : s'.typeExpr t' = s.typeExpr t := by
  have howner : ∀ {k}, t.label = .rule k → k.enclosing = false → t.isOwner = false :=
    fun hl hk => Tree.isOwner_of_isEnclosing (Tree.isEnclosing_of_is (Tree.is_iff.2 hl) hk)
  rw [s'.typeExpr_eq, s.typeExpr_eq t, h.label]
  split
  case h_1 hl | h_2 hl | h_3 hl | h_11 hl => rw [h.map_typeExpr_firstNamed? ih (howner hl rfl)]
  case h_4 hl => rw [h.textOf_of_is (Tree.is_iff.2 hl) (.inl rfl)]
  case h_5 hl => rw [h.textOf_of_is (Tree.is_iff.2 hl) (.inr rfl)]
  case h_6 hl =>
    have hplain : t.isEnclosing = false := Tree.isEnclosing_of_is (Tree.is_iff.2 hl) rfl
    -- The name of a type is read as a text.
    have hname := (h.rel_field? (howner hl rfl) .name).imp_of_eq
      (T := fun c' c => s'.textOf c' = s.textOf c) fun c' c hc htwin => by
        refine htwin.textOf_of_isVerbatim (Tree.isVerbatim_of_straight ?_)
        have hformed := (h.laid hl (by decide)).formed
        rw [hl, formed_titled rfl] at hformed
        exact hformed c hc
    have harguments : (t'.field? .typeArguments).map s'.typeExprsBelow =
        (t.field? .typeArguments).map s.typeExprsBelow :=
      ((h.rel_field? (howner hl rfl) .typeArguments).imp_of_eq fun c' c hc htwin => by
        have hmem : c ∈ t.children := (Tree.field?_eq_some hc).1
        exact (ih c hmem c' htwin).typeExprsBelow (h.isOwner_of_mem hplain hmem)).map_eq
          fun _ _ => id
    rw [harguments]
    exact congrArg (Option.getD · TypeExpr.other) (hname.map_eq fun _ _ heq => by rw [heq])
  case h_7 hl | h_8 hl =>
    rw [h.members_children ih (Tree.isEnclosing_of_is (Tree.is_iff.2 hl) rfl)]
  case h_9 hl | h_10 hl => rw [h.map_typeExpr_named ih (howner hl rfl)]
  case h_12 hl =>
    -- A literal is read as a text.
    have hliteral := (h.rel_firstNamed? (howner hl rfl)).imp_of_eq
      (T := fun c' c => s'.literalTypeOf c' = s.literalTypeOf c) fun c' c hc htwin => by
        refine htwin.literalTypeOf (Tree.isVerbatim_of_straight ?_)
        have hformed := (h.laid hl (by decide)).formed
        rw [hl, formed_textual rfl, List.all_eq_true] at hformed
        exact hformed c (Tree.mem_children_of_named (List.mem_of_head? hc))
    rw [hliteral.map_eq fun _ _ => id]
  case h_13 => rfl

theorem member_of_children (doc : Option String) : s'.member doc t' = s.member doc t := by
  cases hkind : t.isAny [.indexSignature, .propertySignature, .methodSignature] with
  | false =>
    rw [Trimming.member_of_not_isAny s doc hkind,
      Trimming.member_of_not_isAny s' doc ((h.isAny_eq _).trans hkind)]
  | true =>
    have hplain : t.isEnclosing = false := Tree.isEnclosing_of_isAny hkind (by decide)
    have howner := Tree.isOwner_of_isEnclosing hplain
    have hname : (t'.field? .name).bind s'.propertyName? = (t.field? .name).bind s.propertyName? :=
      (h.rel_field? howner .name).bind_eq fun _ _ hc => hc.propertyName?
    have htype : (t'.field? .type).map s'.typeExpr = (t.field? .type).map s.typeExpr :=
      ((h.rel_field? howner .type).imp_of_eq fun c' c hc htwin =>
        (ih c (Tree.field?_eq_some hc).1 c' htwin).typeExpr).map_eq fun _ _ => id
    rw [s'.member_eq, s.member_eq, h.is_eq, h.is_eq, h.is_eq, hname, htype,
      h.any_isToken_children hplain]

end Children

/-- **A type says in the normal form what it said in the source.** -/
theorem saysAlike (h : Twin s' s t' t) : SaysAlike s' s t' t := by
  induction t using Tree.induction generalizing t' with
  | node l r span ts ih =>
    have ih : ∀ c ∈ (Syntax.Tree.node l r span ts).children, ∀ c', Twin s' s c' c →
        SaysAlike s' s c' c :=
      fun c hc _ htwin => ih c hc htwin
    refine ⟨h.typeExpr_of_children ih, fun howner => ?_, h.member_of_children ih⟩
    rw [s'.typeExprsBelow_eq, s.typeExprsBelow_eq, h.map_typeExpr_named ih howner]

theorem typeExpr (h : Twin s' s t' t) : s'.typeExpr t' = s.typeExpr t := h.saysAlike.typeExpr

theorem declaredType (h : Twin s' s t' t) (ht : isTypeDeclaration t) :
    s'.declaredType t' = s.declaredType t := by
  have hplain : t.isEnclosing = false := Tree.isEnclosing_of_isAny ht (by decide)
  have howner := Tree.isOwner_of_isEnclosing hplain
  unfold Source.declaredType
  rw [h.is_eq]
  split
  · next hinterface =>
    have hparents : s'.parentTypes t' = s.parentTypes t :=
      (h.forall₂_named_filter howner .extendsTypeClause).imp_of_mem (T := fun c' c =>
        s'.typeExprs c'.children = s.typeExprs c.children) (fun c' c hc htwin => by
          have hclause : c.isOwner = false := Tree.isOwner_of_is (List.mem_filter.1 hc).2 rfl
          have hbelow := htwin.saysAlike.typeExprsBelow hclause
          rw [s'.typeExprs_eq, s.typeExprs_eq]
          rwa [s'.typeExprsBelow_eq, s.typeExprsBelow_eq] at hbelow) |>.flatMap_eq fun _ _ => id
    have hbody : s'.bodyMembers t' = s.bodyMembers t := by
      refine congrArg (Option.getD · []) (((h.rel_field? howner .body).imp_of_eq
        (T := fun c' c => s'.members none c'.children = s.members none c.children)
        fun c' c hc htwin => ?_).map_eq fun _ _ => id)
      -- The body of an interface is no block, so its comments are where they were.
      have hrespects := h.respects (Tree.field?_eq_some hc).1
      rw [Tree.ban, Tree.is_iff.1 hinterface] at hrespects
      exact htwin.members_children (fun _ _ _ hc => hc.saysAlike)
        (Tree.isEnclosing_of_respects hrespects) none
    rw [hparents, hbody]
  · exact congrArg DeclaredType.alias
      ((h.rel_field? howner .value).map_eq fun _ _ hc => hc.typeExpr)

/-- **The declarations of the normal form say what those of the source say.** -/
theorem typeDecls (h : Twin s' s s'.root s.root) (builtin : Bool) :
    s'.typeDecls builtin = s.typeDecls builtin := by
  have hkind : ∀ t' t, Twin s' s t' t → isTypeDeclaration t' = isTypeDeclaration t :=
    fun _ _ ht => ht.isAny_eq _
  have hfollows : Search.Follows True s' s (fun _ _ => True)
      (.plain (fun t => if isTypeDeclaration t then .keep else .enter) isTypeDeclaration)
      (.plain (fun t => if isTypeDeclaration t then .keep else .enter) isTypeDeclaration) := by
    refine Search.follows_isAny (by decide) (fun t' t ht => ?_) fun _ t ht => ?_
    · rw [hkind t' t ht]
    · have hlabel := Tree.is_iff.1 ht
      simp [isTypeDeclaration, Tree.isAny, Tree.is, hlabel]
  unfold Source.typeDecls
  refine ((h.forall₂_walk hfollows).imp_of_mem fun t' t hmem ht =>
    And.intro ht (List.mem_filter.1 hmem).2).filterMap_eq fun t' t ht => ?_
  obtain ⟨ht, hdeclaration⟩ := ht
  have hplain : t.isEnclosing = false := Tree.isEnclosing_of_isAny hdeclaration (by decide)
  refine ((ht.rel_field? (Tree.isOwner_of_isEnclosing hplain) .name).imp_of_eq
    (T := fun c' c => s'.textOf c' = s.textOf c) fun c' c hc htwin => ?_).map_eq
      fun _ _ heq => by rw [heq, ht.declaredType hdeclaration]
  -- The name of a type is read as a text.
  obtain ⟨k, hk, hlabel⟩ := Tree.isAny_iff.1 hdeclaration
  have htitled : k.titled :=
    (by decide : ∀ k ∈ [Kind.interfaceDeclaration, .typeAliasDeclaration], k.titled) k hk
  have hformed := (ht.laid hlabel (by rintro rfl; simp at htitled)).formed
  rw [hlabel, formed_titled htitled] at hformed
  exact htwin.textOf_of_isVerbatim (Tree.isVerbatim_of_straight (hformed c hc))

/-- The declarations that a flow can use are the same. -/
theorem typeEnv (h : Twin s' s s'.root s.root) (builtins : Option Source) :
    TypeEnv.of s' builtins = TypeEnv.of s builtins := by
  rw [TypeEnv.of, TypeEnv.of, h.typeDecls]

end Twin

end FlowAnalysis
