import FlowAnalysis.Proofs.Reordering.Gist
import FlowAnalysis.Proofs.Trimming.Walk

/-!
# Nodes of sources with their declarations in another order

What two nodes have in common that say the same beside declarations, and which nodes of two sources
correspond to one another: those outside the declarations stand in the same order in both sources,
those inside a declaration go with it.

## Main results

* `Fits.rel_field?`, `Fits.rel_name`, `Fits.rel_type`, `Fits.bare` — parts of nodes.
* `fits_walk` — the nodes outside of declarations, in their order.
* `Syntax.Source.Reorders.matched_nodes` — **all nodes of some kinds.**
-/

namespace FlowAnalysis

open Syntax

variable {s' s : Source} {t' t : Tree}

/-! ### Places -/

/-- The kinds of declarations of types. -/
def declarationKinds : List Kind := [.interfaceDeclaration, .typeAliasDeclaration]

/-- A node of one of some kinds is of no kind that is not among them. -/
theorem isAny_eq_false_of_disjoint {ks ks' : List Kind} (hks : ∀ k ∈ ks', k ∉ ks)
    (h : t.isAny ks) : t.isAny ks' = false := by
  obtain ⟨k, hk, hlabel⟩ := Tree.isAny_iff.1 h
  rw [Bool.eq_false_iff, ne_eq, Tree.isAny_iff]
  rintro ⟨k', hk', hlabel'⟩
  obtain rfl := Label.rule.inj (hlabel.symm.trans hlabel')
  exact hks k hk' hk

/-- A declaration is of no other kind. -/
theorem isAny_of_isTypeDeclaration {ks : List Kind} (hks : ∀ k ∈ ks, k ∉ declarationKinds)
    (h : isTypeDeclaration t) : t.isAny ks = false := isAny_eq_false_of_disjoint hks h

/-- The children of a node that is of none of the kinds that hold statements are no statements. -/
theorem isAny_statementHolders {k : Kind} (hk : k ∉ statementHolders) (h : t.is k) :
    t.isAny statementHolders = false := by
  have hself : t.isAny [k] := by rwa [Tree.isAny_singleton]
  refine isAny_eq_false_of_disjoint (fun k' hk' heq => ?_) hself
  exact hk (List.mem_singleton.1 heq ▸ hk')

namespace Slot

variable (h : Slot s' s t' t)

include h

theorem role : t'.role = t.role := by
  cases h with
  | blank _ _ hrole => exact hrole
  | fits h => exact h.role

theorem isTypeDeclaration_eq : isTypeDeclaration t' = isTypeDeclaration t := by
  cases h with
  | blank h' h _ => rw [h', h]
  | fits h => exact Tree.isAny_eq_of_label h.label _

theorem isAny_eq {ks : List Kind} (hks : ∀ k ∈ ks, k ∉ declarationKinds) :
    t'.isAny ks = t.isAny ks := by
  cases h with
  | blank h' h _ =>
    rw [isAny_of_isTypeDeclaration hks h', isAny_of_isTypeDeclaration hks h]
  | fits h => exact Tree.isAny_eq_of_label h.label ks

theorem isNamed_eq : (t'.isNamed && !t'.is .comment) = (t.isNamed && !t.is .comment) := by
  have hnamed : ∀ t : Tree, isTypeDeclaration t → (t.isNamed && !t.is .comment) = true := by
    intro t ht
    obtain ⟨k, hk, hlabel⟩ := Tree.isAny_iff.1 ht
    have hcomment : k ≠ .comment := by
      rintro rfl
      simp at hk
    rw [Tree.isNamed, Tree.is_eq_false_of hlabel hcomment, hlabel]
    rfl
  cases h with
  | blank h' h _ => rw [hnamed t' h', hnamed t h]
  | fits h => rw [Tree.isNamed_eq_of_label h.label, Tree.is_eq_of_label h.label]

/-- What is no declaration says the same beside declarations. -/
theorem fits_of_not (hdeclaration : isTypeDeclaration t = false) : Fits s' s t' t := by
  cases h with
  | blank _ h _ => simp [h] at hdeclaration
  | fits h => exact h

end Slot

/-- Of nodes in the same places, those of some kinds say the same beside declarations. -/
theorem fits_filter {ts' ts : List Tree} (h : List.Forall₂ (Slot s' s) ts' ts) (ks : List Kind)
    (hks : ∀ k ∈ ks, k ∉ declarationKinds) :
    List.Forall₂ (Fits s' s) (ts'.filter (·.isAny ks)) (ts.filter (·.isAny ks)) := by
  have hfilter := h.filter fun t' t ht => ht.isAny_eq hks
  refine hfilter.imp_of_mem fun t' t ht hslot => hslot.fits_of_not ?_
  cases hdeclaration : isTypeDeclaration t with
  | false => rfl
  | true =>
    have hkind := (List.mem_filter.1 ht).2
    simp [isAny_of_isTypeDeclaration hks hdeclaration] at hkind

/-! ### Parts -/

namespace Fits

variable (h : Fits s' s t' t)

include h

theorem forall₂_named_slots : List.Forall₂ (Slot s' s) t'.named t.named :=
  h.forall₂_slots.filter fun _ _ hc => hc.isNamed_eq

theorem rel_slot_field? (r : Role) : Option.Rel (Slot s' s) (t'.field? r) (t.field? r) :=
  h.forall₂_slots.find? fun _ _ hc => by rw [hc.role]

variable (hholder : t.isAny statementHolders = false)

include hholder

theorem forall₂_named : List.Forall₂ (Fits s' s) t'.named t.named := by
  refine List.Forall₂.filter ((h.forall₂_children hholder).imp fun _ _ hc => hc.1) ?_
  exact fun _ _ hc => (Slot.fits hc).isNamed_eq

theorem rel_field?_held (r : Role) : Option.Rel
    (fun c' c => Fits s' s c' c ∧ (isHeld t c → Alike s' s c' c)) (t'.field? r) (t.field? r) :=
  (h.forall₂_children hholder).find? fun _ _ hc => by rw [hc.1.role]

theorem rel_field? (r : Role) : Option.Rel (Fits s' s) (t'.field? r) (t.field? r) :=
  (h.rel_field?_held hholder r).imp fun _ _ hc => hc.1

/-- Types say the same all in all. -/
theorem rel_type : Option.Rel (Alike s' s) (t'.field? .type) (t.field? .type) :=
  (h.rel_field?_held hholder .type).imp_of_eq fun c' c hc hfits => hfits.2 (by
    simp [isHeld, (Tree.field?_eq_some hc).2])

/-- Names of what is no variable say the same all in all. -/
theorem rel_name (hvariable : t.is .variableDeclarator = false) :
    Option.Rel (Alike s' s) (t'.field? .name) (t.field? .name) :=
  (h.rel_field?_held hholder .name).imp_of_eq fun c' c hc hfits => hfits.2 (by
    simp [isHeld, (Tree.field?_eq_some hc).2, hvariable])

theorem rel_firstNamed? : Option.Rel (Fits s' s) t'.firstNamed? t.firstNamed? :=
  (h.forall₂_named hholder).head?

end Fits

/-- A node of a kind whose text makes a difference says the same all in all. -/
theorem Fits.alike {k : Kind} (h : Fits s' s t' t) (hk : k ∈ writtenKinds) (ht : t.is k) :
    Alike s' s t' t := by
  refine h.written ?_
  have hwritten : t.isAny writtenKinds := Tree.isAny_iff.2 ⟨k, hk, Tree.is_iff.1 ht⟩
  simp [isWritten, hwritten]

/-- Without the wrappers around them expressions say the same beside declarations. -/
theorem Fits.bare (h : Fits s' s t' t) : Fits s' s t'.bare t.bare := by
  induction t using Tree.induction generalizing t' with
  | node l r span ts ih =>
    rw [Tree.bare_eq, Tree.bare_eq, Tree.isWrapper, Tree.isWrapper,
      Tree.isAny_eq_of_label h.label]
    split
    · next hwrapper =>
      have hholder : (Syntax.Tree.node l r span ts).isAny statementHolders = false :=
        isAny_eq_false_of_disjoint (by decide) hwrapper
      have hfirst := h.rel_firstNamed? hholder
      cases hc : (Syntax.Tree.node l r span ts).firstNamed? with
      | none =>
        rw [hc] at hfirst
        generalize t'.firstNamed? = first' at hfirst
        cases hfirst
        exact h
      | some c =>
        have hmem : c ∈ ts := Tree.mem_children_of_named (List.mem_of_head? hc)
        rw [hc] at hfirst
        generalize t'.firstNamed? = first' at hfirst
        cases hfirst with
        | some hfits => exact ih c hmem hfits
    · exact h

/-! ### Nodes -/

/-- The outermost declarations of types in a node, those inside nodes that are left out not
counted. -/
def declarationsOutside (out : Tree → Bool) (t : Tree) : List Tree :=
  (t.walk fun t => if out t then .skip else if isTypeDeclaration t then .keep else .enter).filter
    isTypeDeclaration

/-- The nodes outside of declarations and of nodes that are left out. -/
def nodesOutside (out : Tree → Bool) (t : Tree) : List Tree :=
  t.walk (Tree.except fun t => out t || isTypeDeclaration t)

theorem declarationsOutside_eq (out : Tree → Bool) (t : Tree) : declarationsOutside out t =
    if out t then []
    else if isTypeDeclaration t then [t] else t.children.flatMap (declarationsOutside out) := by
  rw [declarationsOutside, Tree.walk_eq]
  cases hout : out t with
  | true => rfl
  | false =>
    cases hself : isTypeDeclaration t with
    | true => simp [hself]
    | false =>
      simp only [Bool.false_eq_true, if_false]
      rw [List.filter_cons_of_neg (by simp [hself]), List.filter_flatMap]
      rfl

theorem nodesOutside_eq (out : Tree → Bool) (t : Tree) : nodesOutside out t =
    if out t || isTypeDeclaration t then [] else t :: t.children.flatMap (nodesOutside out) := by
  rw [nodesOutside, Tree.walk_eq, Tree.except]
  cases out t || isTypeDeclaration t <;> rfl

/-- **The nodes outside of declarations stand in the same order.** -/
theorem Slot.forall₂_nodesOutside (h : Slot s' s t' t) (out' out : Tree → Bool)
    (hout : ∀ t' t, Fits s' s t' t → out' t' = out t) :
    List.Forall₂ (Fits s' s) (nodesOutside out' t') (nodesOutside out t) := by
  induction t using Tree.induction generalizing t' with
  | node l r span ts ih =>
    rw [nodesOutside_eq, nodesOutside_eq, h.isTypeDeclaration_eq]
    cases h with
    | blank _ hdeclaration _ => simp [hdeclaration]
    | fits h =>
      rw [hout _ _ h]
      split
      · exact .nil
      · exact .cons h (h.forall₂_slots.flatMap_of_mem fun c' c hc hslot => ih c hc hslot)

/-- Declarations stand below both nodes or below none. -/
theorem Slot.any_isTypeDeclaration_eq (h : Slot s' s t' t) :
    t'.nodes.any isTypeDeclaration = t.nodes.any isTypeDeclaration := by
  induction t using Tree.induction generalizing t' with
  | node l r span ts ih =>
    rw [Tree.nodes_eq, Tree.nodes_eq, Tree.nodesOf_eq, Tree.nodesOf_eq, List.any_cons,
      List.any_cons, h.isTypeDeclaration_eq]
    cases h with
    | blank _ hdeclaration _ => rw [hdeclaration, Bool.true_or, Bool.true_or]
    | fits h =>
      rw [List.any_flatMap, List.any_flatMap]
      have hchildren : List.Forall₂ (fun c' c : Tree => c'.nodes.any isTypeDeclaration =
          c.nodes.any isTypeDeclaration) t'.children ts :=
        h.forall₂_slots.imp_of_mem fun c' c hc hslot => ih c hc hslot
      exact congrArg _ (hchildren.any_eq fun _ _ hc => hc)

theorem declarationsOutside_eq_nil (out : Tree → Bool)
    (h : t.nodes.any isTypeDeclaration = false) : declarationsOutside out t = [] := by
  rw [declarationsOutside, List.filter_eq_nil_iff]
  exact fun n hn => List.any_eq_false.1 h n (Tree.mem_nodes_of_mem_walk hn)

/-- What holds of the walks of some trees holds of one after the other. -/
theorem perm_flatMap_walk (out : Tree → Bool) {ts : List Tree}
    (h : ∀ t ∈ ts, (t.walk (Tree.except out)).Perm
      (nodesOutside out t ++ (declarationsOutside out t).flatMap (Tree.walk (Tree.except out)))) :
    (ts.flatMap (Tree.walk (Tree.except out))).Perm (ts.flatMap (nodesOutside out) ++
      (ts.flatMap (declarationsOutside out)).flatMap (Tree.walk (Tree.except out))) := by
  rw [List.flatMap_assoc]
  exact (List.Perm.flatMap_left _ h).trans (List.flatMap_append_perm _ _ _).symm

/-- **Every node of a walk stands outside of declarations or in one of them.** -/
theorem perm_walk (out : Tree → Bool) (t : Tree) : (t.walk (Tree.except out)).Perm
    (nodesOutside out t ++ (declarationsOutside out t).flatMap (Tree.walk (Tree.except out))) := by
  induction t using Tree.induction with
  | node l r span ts ih =>
    rw [declarationsOutside_eq, nodesOutside_eq]
    cases hout : out (.node l r span ts) with
    | true => simp [Tree.walk_eq, Tree.except, hout]
    | false =>
      cases hself : isTypeDeclaration (.node l r span ts) with
      | true => simp
      | false =>
        rw [Tree.walk_eq, Tree.except, hout]
        exact (perm_flatMap_walk out ih).cons _

/-- So it is with the nodes below a node that is entered whatever it is. -/
theorem perm_walkBelow (out : Tree → Bool) (t : Tree) : (t.walkBelow (Tree.except out)).Perm
    (t :: t.children.flatMap (nodesOutside out) ++
      (t.children.flatMap (declarationsOutside out)).flatMap (Tree.walk (Tree.except out))) := by
  rw [Tree.walkBelow, Tree.walkChildren_eq]
  exact (perm_flatMap_walk out fun c _ => perm_walk out c).cons t

/-- A walk that leaves nothing out comes to all nodes. -/
theorem walk_eq_nodes (t : Tree) : t.walk (Tree.except fun _ => false) = t.nodes := by
  induction t using Tree.induction with
  | node l r span ts ih =>
    rw [Tree.walk_eq, Tree.nodes_eq, Tree.nodesOf_eq]
    exact congrArg _ (List.flatMap_congr ih)

/-- Every node stands outside of declarations or in one of them. -/
theorem perm_nodes (t : Tree) : t.nodes.Perm (nodesOutside (fun _ => false) t ++
    (Source.declarationsIn t).flatMap Tree.nodes) := by
  have hperm := perm_walk (fun _ => false) t
  simp only [walk_eq_nodes] at hperm
  rwa [funext walk_eq_nodes] at hperm

/-- Below declarations that say the same the nodes say the same. -/
theorem fits_nodes_filter {ks : List Kind} (hks : ∀ k ∈ ks, k ∉ declarationKinds)
    (ht : isTypeDeclaration t)
    (h : Alike s' s (t'.withRole none) (t.withRole none)) : List.Forall₂ (Fits s' s)
      (t'.nodes.filter (·.isAny ks)) (t.nodes.filter (·.isAny ks)) := by
  have hlabel : t'.label = t.label := h.label
  have hchildren : List.Forall₂ (Alike s' s) t'.children t.children := h.children
  have hself : t.isAny ks = false := isAny_of_isTypeDeclaration hks ht
  have hself' : t'.isAny ks = false := (Tree.isAny_eq_of_label hlabel ks).trans hself
  rw [Tree.nodes_eq, Tree.nodes_eq, List.filter_cons_of_neg (by simp [hself']),
    List.filter_cons_of_neg (by simp [hself]), Tree.nodesOf_eq, Tree.nodesOf_eq]
  have hnodes := hchildren.flatMap_of_mem fun c' c _ hc => hc.forall₂_nodes
  have hfilter := hnodes.filter fun n' n hn => Tree.isAny_eq_of_label hn.label ks
  exact hfilter.imp fun _ _ hn => hn.fits

namespace Syntax.Source.Reorders

variable (h : s'.Reorders s)

include h

/-- The declarations of a source say the same as those of the other one, in another order. -/
theorem matched_declarations : (declarationsIn s'.root).Matched
    (fun t' t => isTypeDeclaration t ∧ Alike s' s (t'.withRole none) (t.withRole none))
      (declarationsIn s.root) :=
  (List.Matched.of_map_perm h.declarations).mem.imp fun _ _ ht =>
    ⟨(List.mem_filter.1 ht.1).2, ht.2⟩

/-- The roots say the same beside declarations. -/
theorem fits_root : Fits s' s s'.root s.root := by
  refine ((slot_of_frameIn_eq h.frame).2 ?_).1
  rw [isBlank, Bool.and_eq_false_iff]
  refine or_iff_not_imp_right.2 fun hdeclaration => ?_
  exact isAny_of_isTypeDeclaration (by decide) (by simpa using hdeclaration)

/-- **All nodes of some kinds say the same beside declarations, in another order.** -/
theorem matched_nodes (ks : List Kind) (hks : ∀ k ∈ ks, k ∉ declarationKinds) :
    (s'.root.nodes.filter (·.isAny ks)).Matched (Fits s' s) (s.root.nodes.filter (·.isAny ks)) := by
  have houter := ((Slot.fits h.fits_root).forall₂_nodesOutside (fun _ => false) (fun _ => false)
    fun _ _ _ => rfl).filter fun t' t ht => Tree.isAny_eq_of_label ht.label ks
  have hinner := h.matched_declarations.flatMap fun t' t ht => fits_nodes_filter hks ht.1 ht.2
  refine ((List.Matched.of_forall₂ houter).append hinner).of_perm ?_ ?_
  · rw [← List.filter_flatMap, ← List.filter_append]
    exact (perm_nodes s'.root).filter _
  · rw [← List.filter_flatMap, ← List.filter_append]
    exact (perm_nodes s.root).filter _

end Syntax.Source.Reorders

end FlowAnalysis
