import FlowAnalysis.Proofs.Related
import FlowAnalysis.Proofs.Trimming.Arguments
import FlowAnalysis.Proofs.Trimming.Walk
import FlowAnalysis.Proofs.Types.Shapes

/-!
# Types in trimmed sources

A type says in a trimmed source what it says in the source, but for the documentation of its
properties.  So a name has the same properties.

## Main definitions

* `TypeExpr.undocumented`, `TypeEnv.undocumented` — types and declarations without documentation.

## Main results

* `Trimming.Matches.saysSame` — **a type says in a trimmed source what it says in the source.**
* `Trimming.undocumented_typeEnv` — so do the declarations.
* `TypeEnv.shapeOf_congr` — documentation makes no difference to the properties of a type.
-/

namespace FlowAnalysis

open Syntax

/-! ### Types without documentation -/

mutual

/-- A type without the documentation of its properties. -/
def TypeExpr.undocumented : TypeExpr → TypeExpr
  | .generic name arguments => .generic name (TypeExpr.undocumentedAll arguments)
  | .object members => .object (Member.undocumentedAll members)
  | .intersection parts => .intersection (TypeExpr.undocumentedAll parts)
  | .union parts => .union (TypeExpr.undocumentedAll parts)
  | .array items => .array items.undocumented
  | .wrapped inner => .wrapped inner.undocumented
  | .builtin name => .builtin name
  | .named name => .named name
  | .literal value => .literal value
  | .other => .other

/-- Several types without documentation. -/
def TypeExpr.undocumentedAll : List TypeExpr → List TypeExpr
  | [] => []
  | t :: ts => t.undocumented :: TypeExpr.undocumentedAll ts

/-- The type of a property without documentation. -/
def TypeExpr.undocumentedType : Option TypeExpr → Option TypeExpr
  | none => none
  | some t => some t.undocumented

/-- A member without documentation. -/
def Member.undocumented : Member → Member
  | .property name optional type _ => .property name optional (TypeExpr.undocumentedType type) none
  | .index => .index

/-- Several members without documentation. -/
def Member.undocumentedAll : List Member → List Member
  | [] => []
  | m :: ms => m.undocumented :: Member.undocumentedAll ms

end

theorem TypeExpr.undocumentedAll_eq (ts : List TypeExpr) :
    TypeExpr.undocumentedAll ts = ts.map TypeExpr.undocumented := by
  induction ts with
  | nil => rfl
  | cons t ts ih => rw [TypeExpr.undocumentedAll, ih, List.map_cons]

theorem TypeExpr.undocumentedType_eq (t : Option TypeExpr) :
    TypeExpr.undocumentedType t = t.map TypeExpr.undocumented := by
  cases t <;> rfl

theorem Member.undocumentedAll_eq (ms : List Member) :
    Member.undocumentedAll ms = ms.map Member.undocumented := by
  induction ms with
  | nil => rfl
  | cons m ms ih => rw [Member.undocumentedAll, ih, List.map_cons]

/-! ### Types of nodes, child by child -/

namespace Syntax.Source

variable (s : Source)

theorem typeExprs_eq (ts : List Tree) :
    s.typeExprs ts = (ts.filter fun c => c.isNamed && !c.is .comment).map s.typeExpr := by
  induction ts with
  | nil => rfl
  | cons t ts ih =>
    rw [typeExprs, List.filter_cons]
    split
    · rw [ih, List.map_cons]
    · exact ih

theorem typeExprsBelow_eq (t : Tree) : s.typeExprsBelow t = t.named.map s.typeExpr := by
  obtain ⟨l, r, span, ts⟩ := t
  rw [typeExprsBelow, typeExprs_eq]
  rfl

theorem argumentsIn_eq (t : Tree) : s.argumentsIn t.children =
    ((t.field? .typeArguments).map s.typeExprsBelow).getD [] := by
  rw [Tree.field?]
  induction t.children with
  | nil => rfl
  | cons c cs ih =>
    rw [argumentsIn, List.find?_cons]
    by_cases hc : c.role = some .typeArguments
    · simp [hc]
    · simp [hc, ih]

theorem typeIn_eq (t : Tree) : s.typeIn t.children = (t.field? .type).map s.typeExpr := by
  rw [Tree.field?]
  induction t.children with
  | nil => rfl
  | cons c cs ih =>
    rw [typeIn, List.find?_cons]
    by_cases hc : c.role = some .type
    · simp [hc]
    · simp [hc, ih]

theorem typeExpr_eq (t : Tree) : s.typeExpr t =
    match t.label with
    | .rule .typeAscription | .rule .parenthesizedType | .rule .readonlyType =>
      ((t.firstNamed?.map s.typeExpr).map TypeExpr.wrapped).getD .other
    | .rule .typeIdentifier => .named (s.textOf t)
    | .rule .predefinedType => .builtin (s.textOf t)
    | .rule .genericType =>
      ((t.field? .name).map fun name => TypeExpr.generic (s.textOf name)
        (((t.field? .typeArguments).map s.typeExprsBelow).getD [])).getD .other
    | .rule .objectType | .rule .interfaceBody => .object (s.members none t.children)
    | .rule .intersectionType => .intersection (t.named.map s.typeExpr)
    | .rule .unionType => .union (t.named.map s.typeExpr)
    | .rule .arrayType => ((t.firstNamed?.map s.typeExpr).map TypeExpr.array).getD .other
    | .rule .literalType => .literal ((t.firstNamed?.map s.literalTypeOf).getD .other)
    | _ => .other := by
  have harguments := s.argumentsIn_eq t
  obtain ⟨l, r, span, ts⟩ := t
  rw [Tree.children_node] at harguments
  unfold typeExpr
  simp only [typeExprs_eq, harguments, Tree.label_node]
  split
  case h_1 | h_2 | h_3 | h_11 =>
    rw [Tree.firstNamed?, Tree.named, Tree.children_node]
    cases ts.filter fun c => c.isNamed && !c.is .comment <;> rfl
  case h_6 => cases (Tree.node (.rule .genericType) r span ts).field? .name <;> rfl
  case h_13 => simp only
  all_goals rfl

theorem member_eq (doc : Option String) (t : Tree) : s.member doc t =
    if t.is .indexSignature then [.index]
    else
      match (t.field? .name).bind s.propertyName? with
      | some name =>
        if t.is .propertySignature then
          [.property name (t.children.any (·.isToken "?")) ((t.field? .type).map s.typeExpr) doc]
        else if t.is .methodSignature then
          [.property name (t.children.any (·.isToken "?")) none doc]
        else []
      | none => [] := by
  obtain ⟨l, r, span, ts⟩ := t
  have htype := s.typeIn_eq (.node l r span ts)
  rw [Tree.children_node] at htype
  rw [member, htype]
  rfl

/-- The documentation in front of a member is all that is kept of what stands in front of it. -/
theorem undocumented_member (doc doc' : Option String) (t : Tree) :
    (s.member doc t).map Member.undocumented = (s.member doc' t).map Member.undocumented := by
  rw [member_eq, member_eq]
  split
  · rfl
  · split
    · split
      · rfl
      · split <;> rfl
    · rfl

theorem undocumented_members (doc : Option String) (ts : List Tree) :
    (s.members doc ts).map Member.undocumented =
      ts.flatMap fun t => (s.member none t).map Member.undocumented := by
  induction ts generalizing doc with
  | nil => rfl
  | cons t ts ih =>
    rw [members, List.map_append, List.flatMap_cons, ih, s.undocumented_member doc none]

end Syntax.Source

/-! ### Types in trimmed sources -/

namespace Syntax.Trimming

variable {P : Trimming} {s' s : Source} {u t v c p : Tree}

/-- An expression is no type of which anything is known. -/
theorem typeExpr_of_isAny (s : Source) (h : t.isAny expressionKinds) : s.typeExpr t = .other := by
  obtain ⟨k, hk, hlabel⟩ := Tree.isAny_iff.1 h
  rw [Source.typeExpr_eq, hlabel]
  split
  case h_13 => rfl
  all_goals
    next heq =>
      obtain rfl := Label.rule.inj heq
      exact absurd hk (by decide)

/-- What is of another kind than members is no member. -/
theorem member_of_not_isAny (s : Source) (doc : Option String)
    (h : t.isAny [.indexSignature, .propertySignature, .methodSignature] = false) :
    s.member doc t = [] := by
  simp only [Tree.isAny, List.any_cons, List.any_nil, Bool.or_false, Bool.or_eq_false_iff] at h
  rw [Source.member_eq, h.1, h.2.1, h.2.2]
  cases (t.field? .name).bind s.propertyName? <;> rfl

theorem member_of_isAny (s : Source) (doc : Option String) (h : t.isAny expressionKinds) :
    s.member doc t = [] := by
  refine member_of_not_isAny s doc ?_
  simp [Tree.isAny, Tree.is_eq_false_of_isAny (k := .indexSignature) (by decide) h,
    Tree.is_eq_false_of_isAny (k := .propertySignature) (by decide) h,
    Tree.is_eq_false_of_isAny (k := .methodSignature) (by decide) h]

theorem member_of_isRemark (s : Source) (doc : Option String) (h : t.isRemark) :
    s.member doc t = [] :=
  member_of_not_isAny s doc (by simp [Tree.isAny, Tree.is, label_of_isRemark h])

/-- What two nodes say as types and as members, and what those inside them say, differs at most in
documentation. -/
structure SaysSame (s' s : Source) (u t : Tree) : Prop where
  typeExpr : (s'.typeExpr u).undocumented = (s.typeExpr t).undocumented
  typeExprsBelow : (s'.typeExprsBelow u).map TypeExpr.undocumented =
    (s.typeExprsBelow t).map TypeExpr.undocumented
  member : (s'.member none u).map Member.undocumented = (s.member none t).map Member.undocumented
  members : (s'.members none u.children).map Member.undocumented =
    (s.members none t.children).map Member.undocumented

/-- What stands in the place of a child says what the child says, once what is left of the child
does. -/
theorem SaysSame.of_core (h : SaysSame s' s v (P.core p c)) :
    (s'.typeExpr v).undocumented = (s.typeExpr c).undocumented ∧
      (s'.member none v).map Member.undocumented = (s.member none c).map Member.undocumented := by
  have htype := h.typeExpr
  have hmember := h.member
  rcases core_cases (P := P) p c with hsame | ⟨hc, hcore⟩
  · rw [hsame] at htype hmember
    exact ⟨htype, hmember⟩
  · -- An expression is neither a type nor a member, with its wrapper or without.
    rw [typeExpr_of_isAny s hcore] at htype
    rw [member_of_isAny s none hcore] at hmember
    rw [typeExpr_of_isAny s hc, member_of_isAny s none hc]
    exact ⟨htype, hmember⟩

namespace Matches

theorem literalTypeOf (h : P.Matches s' s u t) (ht : s'.chars u = s.chars t) :
    s'.literalTypeOf u = s.literalTypeOf t := by
  unfold Source.literalTypeOf
  rw [h.label, h.stringValue?, ht]

section Children

variable (h : P.Matches s' s u t)
  (ih : ∀ v c, P.Part s' s t v c → SaysSame s' s v (P.core t c))

include h ih

theorem undocumented_named : (u.named.map s'.typeExpr).map TypeExpr.undocumented =
    (t.named.map s.typeExpr).map TypeExpr.undocumented := by
  rw [List.map_map, List.map_map]
  exact h.forall₂_named.map_eq fun v c hc => (ih v c hc).of_core.1

theorem undocumented_firstNamed? (f : TypeExpr → TypeExpr)
    (hf : ∀ x, (f x).undocumented = f x.undocumented) :
    (((u.firstNamed?.map s'.typeExpr).map f).getD .other).undocumented =
      (((t.firstNamed?.map s.typeExpr).map f).getD .other).undocumented := by
  have hfirst := h.rel_firstNamed?
  generalize u.firstNamed? = first' at hfirst
  generalize t.firstNamed? = first at hfirst
  cases hfirst with
  | none => rfl
  | some hc => simp only [Option.map_some, Option.getD_some, hf, (ih _ _ hc).of_core.1]

theorem undocumented_members : (s'.members none u.children).map Member.undocumented =
    (s.members none t.children).map Member.undocumented := by
  rw [s'.undocumented_members, s.undocumented_members, ← List.forall₂_eq_eq_eq]
  refine h.forall₂_flatMap_children (fun c hc => ?_) (fun c hc => ?_) fun v c hc => ?_
  · rw [member_of_isRemark s' none hc]
    rfl
  · rw [member_of_isRemark s none hc]
    rfl
  · rw [List.forall₂_eq_eq_eq]
    exact (ih v c hc).of_core.2

theorem undocumented_typeExpr : (s'.typeExpr u).undocumented = (s.typeExpr t).undocumented := by
  rw [s'.typeExpr_eq, s.typeExpr_eq t, h.label]
  split
  case h_1 | h_2 | h_3 => exact h.undocumented_firstNamed? ih .wrapped fun _ => rfl
  case h_4 hl => rw [h.textOf_of_is (Tree.is_iff.2 hl) (by decide)]
  case h_5 hl => rw [h.textOf_of_is (Tree.is_iff.2 hl) (by decide)]
  case h_6 hl =>
    -- The name of a type is read as it is written.
    have hname : Option.Rel (fun v c => s'.textOf v = s.textOf c) (u.field? .name)
        (t.field? .name) := (h.rel_field? .name).imp fun v c hc => congrArg String.ofList
      (hc.1.chars (by simp [Tree.spells, Tree.isAny, Tree.is, hl, hc.2]))
    have harguments : (((u.field? .typeArguments).map s'.typeExprsBelow).getD []).map
        TypeExpr.undocumented = (((t.field? .typeArguments).map s.typeExprsBelow).getD []).map
          TypeExpr.undocumented := by
      have hlist := (h.rel_field? .typeArguments).imp fun v c hc =>
        And.intro (ih v c hc.1) (core_of_isClosedAt (P := P) (p := t) (c := c)
          (by simp [Tree.isClosedAt, hc.2, closedRoles]))
      generalize u.field? .typeArguments = list' at hlist
      generalize t.field? .typeArguments = list at hlist
      cases hlist with
      | none => rfl
      | some hlist => exact hlist.2 ▸ hlist.1.typeExprsBelow
    generalize u.field? .name = name' at hname
    generalize t.field? .name = name at hname
    cases hname with
    | none => rfl
    | some hname =>
      simp only [Option.map_some, Option.getD_some, TypeExpr.undocumented,
        TypeExpr.undocumentedAll_eq, hname, harguments]
  case h_7 | h_8 =>
    -- What stands between the members, and so what documents them, may change.
    rw [TypeExpr.undocumented, TypeExpr.undocumented, Member.undocumentedAll_eq,
      Member.undocumentedAll_eq, h.undocumented_members ih]
  case h_9 | h_10 =>
    rw [TypeExpr.undocumented, TypeExpr.undocumented, TypeExpr.undocumentedAll_eq,
      TypeExpr.undocumentedAll_eq, h.undocumented_named ih]
  case h_11 => exact h.undocumented_firstNamed? ih .array fun _ => rfl
  case h_12 hl =>
    -- A literal is read as it is written.
    have hliteral : Option.Rel (fun v c => s'.literalTypeOf v = s.literalTypeOf c) u.firstNamed?
        t.firstNamed? := h.rel_firstNamed?.imp fun v c hc => by
      refine (hc.of_isClosedAt ?_).literalTypeOf (hc.chars ?_)
      · simp [Tree.isClosedAt, Tree.isAny, Tree.is, hl]
      · simp [Tree.spells, Tree.isAny, Tree.is, hl]
    rw [hliteral.map_eq fun _ _ hc => hc]
  case h_13 => rfl

theorem undocumented_member : (s'.member none u).map Member.undocumented =
    (s.member none t).map Member.undocumented := by
  have hname : (u.field? .name).bind s'.propertyName? = (t.field? .name).bind s.propertyName? :=
    (h.rel_field?_of_mem (by decide)).bind_eq fun _ _ hc => hc.propertyName?
  have htype : ((u.field? .type).map s'.typeExpr).map TypeExpr.undocumented =
      ((t.field? .type).map s.typeExpr).map TypeExpr.undocumented := by
    rw [Option.map_map, Option.map_map]
    exact (h.rel_field? .type).map_eq fun v c hc => (ih v c hc.1).of_core.1
  rw [s'.member_eq, s.member_eq none t, h.is_eq, h.is_eq, h.is_eq, h.any_isToken_children, hname]
  split
  · rfl
  · split
    · split
      · simp only [List.map_cons, List.map_nil, Member.undocumented,
          TypeExpr.undocumentedType_eq, htype]
      · split <;> rfl
    · rfl

end Children

/-- **A type says in a trimmed source what it says in the source**, but for documentation. -/
theorem saysSame (h : P.Matches s' s u t) : SaysSame s' s u t := by
  induction t using Tree.induction_below generalizing u with
  | node t ih =>
    have hpart : ∀ v c, P.Part s' s t v c → SaysSame s' s v (P.core t c) := fun v c hc =>
      ih c hc.mem _ (core_mem_nodes t c) hc.core
    refine ⟨h.undocumented_typeExpr hpart, ?_, h.undocumented_member hpart,
      h.undocumented_members hpart⟩
    rw [s'.typeExprsBelow_eq, s.typeExprsBelow_eq, h.undocumented_named hpart]

end Matches

end Syntax.Trimming

/-! ### Declarations without documentation -/

/-- What a declaration says, without documentation. -/
def DeclaredType.undocumented : DeclaredType → DeclaredType
  | .interface parents body =>
    .interface (parents.map TypeExpr.undocumented) (body.map Member.undocumented)
  | .alias value => .alias (value.map TypeExpr.undocumented)

/-- A declaration without documentation. -/
def TypeDecl.undocumented (d : TypeDecl) : TypeDecl := ⟨d.declared.undocumented, d.builtin⟩

/-- Declarations without documentation. -/
def TypeEnv.undocumented (env : TypeEnv) : TypeEnv :=
  ⟨env.decls.map fun e => (e.1, e.2.map TypeDecl.undocumented)⟩

namespace Keyed

variable {κ α β : Type} [BEq κ]

theorem get?_map (f : α → β) (m : List (κ × α)) (k : κ) :
    get? (m.map fun e => (e.1, f e.2)) k = (get? m k).map f := by
  rw [get?, get?, List.find?_map, Option.map_map, Option.map_map]
  rfl

theorem put_map (f : α → β) (k : κ) (a : α) (m : List (κ × α)) :
    put k (f a) (m.map fun e => (e.1, f e.2)) = (put k a m).map fun e => (e.1, f e.2) := by
  induction m with
  | nil => rfl
  | cons e rest ih =>
    rw [List.map_cons, put, put, ih]
    split <;> rfl

end Keyed

namespace TypeEnv

variable (env : TypeEnv)

theorem declsOf?_undocumented (name : String) : env.undocumented.declsOf? name =
    (env.declsOf? name).map fun ds => ds.map TypeDecl.undocumented :=
  Keyed.get?_map _ env.decls name

theorem isKnown_undocumented (name : String) :
    env.undocumented.isKnown name = env.isKnown name := by
  rw [isKnown, isKnown, declsOf?_undocumented, Option.isSome_map]

theorem declare_undocumented (name : String) (d : TypeDecl) :
    (env.declare name d).undocumented = env.undocumented.declare name d.undocumented := by
  have hold : (Keyed.get? env.undocumented.decls name).getD [] =
      ((Keyed.get? env.decls name).getD []).map TypeDecl.undocumented := by
    rw [undocumented, Keyed.get?_map]
    cases Keyed.get? env.decls name <;> rfl
  have hbuiltin : ∀ ds : List TypeDecl,
      (ds.map TypeDecl.undocumented).all (·.builtin) = ds.all (·.builtin) := by
    intro ds
    rw [List.all_map]
    rfl
  unfold declare
  dsimp only
  -- Which declarations are put aside depends only on which of them are built in.
  rw [hold, hbuiltin]
  rw [undocumented, undocumented, ← Keyed.put_map]
  congr 2
  rw [List.map_append]
  have hb : d.undocumented.builtin = d.builtin := rfl
  rw [hb]
  split <;> rfl

theorem ofDecls_undocumented (decls : List (String × TypeDecl)) :
    (ofDecls decls).undocumented = ofDecls (decls.map fun e => (e.1, e.2.undocumented)) := by
  have hfoldl : ∀ env : TypeEnv, (decls.foldl (fun env e => env.declare e.1 e.2) env).undocumented =
      (decls.map fun e => (e.1, e.2.undocumented)).foldl (fun env e => env.declare e.1 e.2)
        env.undocumented := by
    induction decls with
    | nil => exact fun _ => rfl
    | cons e rest ih =>
      intro env
      rw [List.foldl_cons, ih, declare_undocumented]
      rfl
  exact hfoldl ⟨[]⟩

/-! ### Shapes without documentation -/

/-- Any two properties. -/
def AnyTwo (_ _ : FieldShape) : Prop := True

theorem keepsOptional_anyTwo : Shape.KeepsOptional AnyTwo := fun _ _ _ _ => trivial

theorem isNullish_undocumented (t : TypeExpr) : t.undocumented.isNullish = t.isNullish := by
  cases t <;> rfl

theorem alike_shapeOfMembers_undocumented (builtin : Bool) (members : List Member) :
    (shapeOfMembers builtin (members.map Member.undocumented)).Alike AnyTwo
      (shapeOfMembers builtin members) := by
  refine Shape.Alike.members (fun m s s' hs => ?_) members
  cases m with
  | property name optional type doc => exact ⟨hs.isOpen, hs.fields.put name trivial⟩
  | index => exact ⟨rfl, hs.fields⟩

/-- Documentation makes no difference to the shape of a type, if it makes none to those of names. -/
theorem alike_shapeWith_undocumented {f g : String → Shape}
    (h : ∀ name, (f name).Alike AnyTwo (g name)) (builtin : Bool) (t : TypeExpr) :
    (env.undocumented.shapeWith f builtin t.undocumented).Alike AnyTwo
      (env.shapeWith g builtin t) := by
  have hunknown : Shape.unknown.Alike AnyTwo .unknown := ⟨rfl, .nil⟩
  induction t using TypeExpr.induction with
  | named name =>
    rw [TypeExpr.undocumented, shapeWith, shapeWith]
    exact h name
  | generic name arguments ih =>
    have hdeclared : (if env.undocumented.isKnown name then f name else .unknown).Alike AnyTwo
        (if env.isKnown name then g name else .unknown) := by
      rw [isKnown_undocumented]
      split
      · exact h name
      · exact hunknown
    rw [TypeExpr.undocumented, TypeExpr.undocumentedAll_eq, shapeWith, shapeWith]
    cases hm : modifier? name with
    | none => exact hdeclared
    | some modify =>
      cases arguments with
      | nil => exact hdeclared
      | cons first rest => exact (ih first List.mem_cons_self).modify keepsOptional_anyTwo hm
  | object members =>
    rw [TypeExpr.undocumented, Member.undocumentedAll_eq, shapeWith, shapeWith]
    exact alike_shapeOfMembers_undocumented builtin members
  | intersection parts ih =>
    rw [TypeExpr.undocumented, TypeExpr.undocumentedAll_eq, shapeWith, shapeWith, shapesWith_eq,
      shapesWith_eq, List.map_map]
    exact .mergeAll_map ih
  | union parts ih =>
    rw [TypeExpr.undocumented, TypeExpr.undocumentedAll_eq, shapeWith, shapeWith,
      shapesOfPresent_eq, shapesOfPresent_eq, List.filter_map, List.map_map]
    simp only [Function.comp_def, isNullish_undocumented]
    exact .common_map fun p hp => ih p (List.mem_of_mem_filter hp)
  | wrapped inner ih =>
    rw [TypeExpr.undocumented, shapeWith, shapeWith]
    exact ih
  | _ =>
    rw [TypeExpr.undocumented]
    exact hunknown

theorem alike_shapeOfDecl_undocumented {f g : String → Shape}
    (h : ∀ name, (f name).Alike AnyTwo (g name)) (d : TypeDecl) :
    (env.undocumented.shapeOfDecl f d.undocumented).Alike AnyTwo (env.shapeOfDecl g d) := by
  match d with
  | ⟨.interface parents body, builtin⟩ =>
    refine Shape.Alike.merge ?_ (alike_shapeOfMembers_undocumented builtin body)
    rw [shapesWith_eq, shapesWith_eq, List.map_map]
    exact .mergeAll_map fun t _ => env.alike_shapeWith_undocumented h builtin t
  | ⟨.alias none, _⟩ => exact ⟨rfl, .nil⟩
  | ⟨.alias (some t), builtin⟩ => exact env.alike_shapeWith_undocumented h builtin t

theorem alike_shapeOfNameAmong_undocumented (n : Nat) (visiting : List String) (name : String) :
    (env.undocumented.shapeOfNameAmong n visiting name).Alike AnyTwo
      (env.shapeOfNameAmong n visiting name) := by
  induction n generalizing visiting name with
  | zero => exact ⟨rfl, .nil⟩
  | succ n ih =>
    rw [shapeOfNameAmong, shapeOfNameAmong, declsOf?_undocumented]
    split
    · exact ⟨rfl, .nil⟩
    · cases env.declsOf? name with
      | none => exact ⟨rfl, .nil⟩
      | some ds =>
        show (Shape.mergeAll ((ds.map TypeDecl.undocumented).map _)).Alike AnyTwo _
        rw [List.map_map]
        exact .mergeAll_map fun d _ => env.alike_shapeOfDecl_undocumented (ih (name :: visiting)) d

/-- **Documentation makes no difference to the properties of a type.** -/
theorem alike_shapeOf_undocumented (t : TypeExpr) :
    (env.undocumented.shapeOf t.undocumented).Alike AnyTwo (env.shapeOf t) := by
  have hlength : env.undocumented.decls.length = env.decls.length := List.length_map _
  refine env.alike_shapeWith_undocumented (fun name => ?_) false t
  rw [shapeOfName, hlength]
  exact env.alike_shapeOfNameAmong_undocumented _ _ name

/-- Declarations and types that differ at most in documentation have the same properties. -/
theorem shapeOf_congr {env env' : TypeEnv} (henv : env'.undocumented = env.undocumented)
    {t t' : TypeExpr} (ht : t'.undocumented = t.undocumented) :
    (env'.shapeOf t').isOpen = (env.shapeOf t).isOpen ∧
      ∀ name, (env'.shapeOf t').has name = (env.shapeOf t).has name := by
  have h := env.alike_shapeOf_undocumented t
  have h' := env'.alike_shapeOf_undocumented t'
  rw [henv, ht] at h'
  exact ⟨h'.isOpen.symm.trans h.isOpen, fun name => (h'.has_eq name).symm.trans (h.has_eq name)⟩

end TypeEnv

/-! ### Declarations in trimmed sources -/

namespace Syntax.Trimming

variable {P : Trimming} {s' s : Source} {u t : Tree}

/-- A declaration says in a trimmed source what it says in the source. -/
theorem Matches.declaredType (h : P.Matches s' s u t) :
    (s'.declaredType u).undocumented = (s.declaredType t).undocumented := by
  unfold Source.declaredType
  rw [h.is_eq]
  split
  · next hinterface =>
    have hparents : (s'.parentTypes u).map TypeExpr.undocumented =
        (s.parentTypes t).map TypeExpr.undocumented := by
      unfold Source.parentTypes
      rw [List.map_flatMap, List.map_flatMap]
      refine (h.forall₂_named_filter (by decide)).flatMap_eq fun v c hc => ?_
      have hbelow := hc.1.saysSame.typeExprsBelow
      rw [s'.typeExprs_eq, s.typeExprs_eq]
      rwa [s'.typeExprsBelow_eq, s.typeExprsBelow_eq] at hbelow
    have hbody : (s'.bodyMembers u).map Member.undocumented =
        (s.bodyMembers t).map Member.undocumented := by
      have hrel := h.rel_field?_of_isClosedAt (r := .body)
        (by simp [Tree.isClosedAt, Tree.isAny, hinterface])
      unfold Source.bodyMembers
      generalize u.field? .body = body' at hrel
      generalize t.field? .body = body at hrel
      cases hrel with
      | none => rfl
      | some hbody => exact hbody.saysSame.members
    rw [DeclaredType.undocumented, DeclaredType.undocumented, hparents, hbody]
  · show DeclaredType.alias (((u.field? .value).map s'.typeExpr).map TypeExpr.undocumented) =
      .alias (((t.field? .value).map s.typeExpr).map TypeExpr.undocumented)
    rw [Option.map_map, Option.map_map]
    exact congrArg DeclaredType.alias ((h.rel_field? .value).map_eq fun v c hc =>
      hc.1.core.saysSame.of_core.1)

theorem isTypeDeclaration_of_quiet (h : t.isAny loudKinds = false) : isTypeDeclaration t = false :=
  Tree.isAny_eq_false_of_subset (by decide) h

/-- **The declarations of a trimmed source say what those of the source say.** -/
theorem undocumented_typeDecls (hdeaf : P.Deaf s isTypeDeclaration) (h : P.Trims s' s)
    (builtin : Bool) : (s'.typeDecls builtin).map (fun e => (e.1, e.2.undocumented)) =
      (s.typeDecls builtin).map fun e => (e.1, e.2.undocumented) := by
  have hkind : ∀ u t, P.Matches s' s u t → isTypeDeclaration u = isTypeDeclaration t :=
    fun u t ht => ht.isAny_eq _
  let visit : Tree → Visit := fun t => if isTypeDeclaration t then .keep else .enter
  have hblind : P.Blind s' s Anywhere (.plain visit isTypeDeclaration)
      (.plain visit isTypeDeclaration) := by
    refine blind_plain hdeaf (fun _ => isTypeDeclaration_of_quiet)
      (fun _ => isTypeDeclaration_of_quiet) hkind (fun u t ht => ?_) fun p _ c _ e he => .inl ?_
    · simp only [visit, hkind u t ht]
    · simp [visit, isTypeDeclaration_of_quiet he.isAny_loudKinds]
  rw [Source.typeDecls, Source.typeDecls, List.map_filterMap, List.map_filterMap]
  refine ((h.root.forall₂_walk hblind).imp_of_mem fun u t ht hmatch =>
    And.intro hmatch (List.mem_filter.1 ht).2).filterMap_eq fun u t ht => ?_
  obtain ⟨hmatch, hdeclaration⟩ := ht
  have hkind : t.isAny [.genericType, .interfaceDeclaration, .typeAliasDeclaration] := by
    obtain ⟨k, hk, hlabel⟩ := Tree.isAny_iff.1 hdeclaration
    exact Tree.isAny_iff.2 ⟨k, List.mem_cons_of_mem _ hk, hlabel⟩
  have hname : Option.Rel (fun v c => s'.textOf v = s.textOf c) (u.field? .name)
      (t.field? .name) := (hmatch.rel_field? .name).imp fun v c hc =>
    congrArg String.ofList (hc.1.chars (by simp [Tree.spells, hkind, hc.2]))
  rw [Option.map_map, Option.map_map]
  refine hname.map_eq fun v c hc => ?_
  show (s'.textOf v, TypeDecl.undocumented ⟨s'.declaredType u, builtin⟩) =
    (s.textOf c, TypeDecl.undocumented ⟨s.declaredType t, builtin⟩)
  rw [hc, TypeDecl.undocumented, TypeDecl.undocumented, hmatch.declaredType]

/-- The declarations that a trimmed flow can use say what those of the flow say. -/
theorem undocumented_typeEnv (hdeaf : P.Deaf s isTypeDeclaration) (h : P.Trims s' s)
    (builtins : Option Source) :
    (TypeEnv.of s' builtins).undocumented = (TypeEnv.of s builtins).undocumented := by
  rw [TypeEnv.of, TypeEnv.of, TypeEnv.ofDecls_undocumented, TypeEnv.ofDecls_undocumented,
    List.map_append, List.map_append, undocumented_typeDecls hdeaf h]

end Syntax.Trimming

end FlowAnalysis
