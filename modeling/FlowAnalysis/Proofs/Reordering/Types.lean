import FlowAnalysis.Proofs.Reordering.Slots
import FlowAnalysis.Proofs.Trimming.Types
import FlowAnalysis.Proofs.Types.Order
import FlowAnalysis.Types.Payload

/-!
# Types of sources with their declarations in another order

Where two nodes say the same they say the same as types and as declarations.  So sources with their
declarations in another order declare the same types, in another order.

## Main results

* `Alike.typeExpr`, `Alike.declaredType` — nodes as types and as declarations.
* `Syntax.Source.Reorders.perm_typeDecls` — **the declarations of a source are those of the other
  one, in another order.**
* `Syntax.Source.Reorders.sameNames_shapeOf` — so every type has properties of the same names.
-/

namespace FlowAnalysis

open Syntax

variable {s' s : Source} {t' t : Tree}

/-! ### Types -/

namespace Alike

theorem docOf? (h : Alike s' s t' t) : s'.docOf? t' = s.docOf? t := by
  rw [Source.docOf?, Source.docOf?, Tree.is_eq_of_label h.label, h.chars]

theorem literalTypeOf (h : Alike s' s t' t) : s'.literalTypeOf t' = s.literalTypeOf t := by
  unfold Source.literalTypeOf
  rw [h.label, h.stringValue?, h.chars]

/-- What two nodes say as types and as members, and what those inside them say. -/
structure SaysSame (s' s : Source) (t' t : Tree) : Prop where
  typeExpr : s'.typeExpr t' = s.typeExpr t
  typeExprsBelow : s'.typeExprsBelow t' = s.typeExprsBelow t
  member : ∀ doc, s'.member doc t' = s.member doc t

/-- Members that say the same one by one, with the documentation in front of them. -/
theorem members_eq {ts' ts : List Tree} (h : List.Forall₂ (Alike s' s) ts' ts)
    (hmember : ∀ t', ∀ t ∈ ts, Alike s' s t' t → ∀ doc, s'.member doc t' = s.member doc t)
    (doc : Option String) : s'.members doc ts' = s.members doc ts := by
  induction h generalizing doc with
  | nil => rfl
  | @cons t' t _ _ ht _ ih =>
    rw [Source.members, Source.members, hmember t' t List.mem_cons_self ht doc, ht.docOf?,
      ih fun t' t hmem => hmember t' t (List.mem_cons_of_mem _ hmem)]

theorem saysSame (h : Alike s' s t' t) : SaysSame s' s t' t := by
  induction t using Tree.induction generalizing t' with
  | node l r span ts ih =>
    have hnamed : t'.named.map s'.typeExpr = (Syntax.Tree.node l r span ts).named.map s.typeExpr :=
      map_eq_iff_forall₂.2 (h.named.imp_of_mem fun c' c hc hcc =>
        (ih c (Tree.mem_children_of_named hc) hcc).typeExpr)
    have hfirst : t'.firstNamed?.map s'.typeExpr =
        (Syntax.Tree.node l r span ts).firstNamed?.map s.typeExpr := by
      rw [Tree.firstNamed?, Tree.firstNamed?, ← List.head?_map, ← List.head?_map, hnamed]
    have hliteral : t'.firstNamed?.map s'.literalTypeOf =
        (Syntax.Tree.node l r span ts).firstNamed?.map s.literalTypeOf :=
      h.firstNamed?.map_eq fun _ _ hc => hc.literalTypeOf
    have hmembers : s'.members none t'.children = s.members none ts :=
      members_eq h.children (fun c' c hc hcc => (ih c hc hcc).member) none
    have hgeneric : ∀ arguments,
        ((t'.field? .name).map fun name => TypeExpr.generic (s'.textOf name) arguments) =
          ((Syntax.Tree.node l r span ts).field? .name).map fun name =>
            TypeExpr.generic (s.textOf name) arguments :=
      fun arguments => (h.field? .name).map_eq fun _ _ hc => by rw [hc.textOf]
    have hname : (t'.field? .name).bind s'.propertyName? =
        ((Syntax.Tree.node l r span ts).field? .name).bind s.propertyName? :=
      (h.field? .name).bind_eq fun _ _ hc => hc.propertyName?
    have htype : (t'.field? .type).map s'.typeExpr =
        ((Syntax.Tree.node l r span ts).field? .type).map s.typeExpr :=
      ((h.field? .type).imp_of_eq fun c' c hc hcc =>
        (ih c (Tree.field?_eq_some hc).1 hcc).typeExpr).map_eq fun _ _ hc => hc
    have hoptional : t'.children.any (·.isToken "?") = ts.any (·.isToken "?") :=
      h.children.any_eq fun c' c hc => by rw [Tree.isToken, Tree.isToken, hc.label]
    have harguments : (t'.field? .typeArguments).map s'.typeExprsBelow =
        ((Syntax.Tree.node l r span ts).field? .typeArguments).map s.typeExprsBelow :=
      ((h.field? .typeArguments).imp_of_eq fun c' c hc hcc =>
        (ih c (Tree.field?_eq_some hc).1 hcc).typeExprsBelow).map_eq fun _ _ hc => hc
    constructor
    · rw [Source.typeExpr_eq, Source.typeExpr_eq, h.label, hnamed, hfirst, hliteral, hmembers,
        h.textOf, harguments]
      simp only [hgeneric, Tree.children_node]
    · rw [Source.typeExprsBelow_eq, Source.typeExprsBelow_eq, hnamed]
    · intro doc
      rw [Source.member_eq, Source.member_eq, hname, htype, Tree.children_node, hoptional,
        Tree.is_eq_of_label h.label, Tree.is_eq_of_label h.label, Tree.is_eq_of_label h.label]

theorem typeExpr (h : Alike s' s t' t) : s'.typeExpr t' = s.typeExpr t := h.saysSame.typeExpr

/-! ### Declarations -/

theorem parentTypes (h : Alike s' s t' t) : s'.parentTypes t' = s.parentTypes t := by
  have hclauses := h.named.filter fun c' c hc => Tree.is_eq_of_label hc.label .extendsTypeClause
  refine hclauses.flatMap_eq fun clause' clause hclause => ?_
  have hbelow := hclause.saysSame.typeExprsBelow
  rw [Source.typeExprsBelow_eq, Source.typeExprsBelow_eq] at hbelow
  rw [Source.typeExprs_eq, Source.typeExprs_eq]
  exact hbelow

theorem bodyMembers (h : Alike s' s t' t) : s'.bodyMembers t' = s.bodyMembers t := by
  rw [Source.bodyMembers, Source.bodyMembers, (h.field? .body).map_eq fun body' body hbody =>
    members_eq hbody.children (fun _ _ _ hc => hc.saysSame.member) none]

/-- Nodes that say the same declare the same. -/
theorem declaredType (h : Alike s' s t' t) : s'.declaredType t' = s.declaredType t := by
  rw [Source.declaredType, Source.declaredType, Tree.is_eq_of_label h.label, h.parentTypes,
    h.bodyMembers, (h.field? .value).map_eq fun _ _ hc => hc.typeExpr]

end Alike

/-! ### Sources -/

/-- What a declaration declares, with its name. -/
def Syntax.Source.namedDecl? (s : Source) (builtin : Bool) (t : Tree) :
    Option (String × TypeDecl) :=
  (t.field? .name).map fun name => (s.textOf name, ⟨s.declaredType t, builtin⟩)

theorem Alike.namedDecl?_eq {builtin : Bool} (h : Alike s' s t' t) :
    s'.namedDecl? builtin t' = s.namedDecl? builtin t := by
  rw [Source.namedDecl?, Source.namedDecl?, h.declaredType]
  exact (h.field? .name).map_eq fun _ _ hc => by rw [hc.textOf]

namespace Syntax.Source.Reorders

variable (h : s'.Reorders s)

include h

/-- **The declarations of a source are those of the other one, in another order.** -/
theorem perm_typeDecls (builtin : Bool) : (s'.typeDecls builtin).Perm (s.typeDecls builtin) :=
  -- The part that a declaration plays makes no difference to what it declares.
  h.matched_declarations.filterMap_perm fun _ _ ht => ht.2.namedDecl?_eq

/-- **Every type has properties of the same names**, and is open or not. -/
theorem sameNames_shapeOf (builtins : Option Source) (t : TypeExpr) :
    ((TypeEnv.of s' builtins).shapeOf t).SameNames ((TypeEnv.of s builtins).shapeOf t) :=
  TypeEnv.sameNames_shapeOf (TypeEnv.rel_declsOf?_of builtins (h.perm_typeDecls false)) t

end Syntax.Source.Reorders

end FlowAnalysis
