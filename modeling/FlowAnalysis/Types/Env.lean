import FlowAnalysis.Syntax.Walk
import FlowAnalysis.Types.Expr

/-!
# Declared types and their shapes

The shape of a type says which properties its values have.  A shape is open when it may have
others too, because something about the type could not be found out.

## Main definitions

* `FieldShape`, `Shape` — properties.
* `Shape.merge`, `Shape.common` — the shapes of intersections and of unions.
* `TypeEnv` — the declarations of a flow, together with built-in ones that it does not replace.
* `TypeEnv.shapeOf`, `TypeEnv.shapeOfName` — the shape of a type expression and of a name.
-/

namespace FlowAnalysis

open Syntax

/-- A property of a type. -/
structure FieldShape where
  optional : Bool
  type : Option TypeExpr
  /-- Whether the property comes from a built-in type. -/
  builtin : Bool
  doc : Option String
  deriving Inhabited

/-- The properties of a type. -/
structure Shape where
  fields : List (String × FieldShape)
  /-- Whether there may be other properties too. -/
  isOpen : Bool
  deriving Inhabited

namespace Shape

/-- A type without properties. -/
def empty : Shape := ⟨[], false⟩

/-- A type of which nothing is known. -/
def unknown : Shape := ⟨[], true⟩

/-- Whether a property may be read. -/
def has (s : Shape) (name : String) : Bool := s.isOpen || s.fields.any (·.1 = name)

/-- The properties of both of two types; where both have one, that of the second counts. -/
def merge (s t : Shape) : Shape :=
  ⟨t.fields.foldl (fun acc e => Keyed.put e.1 e.2 acc) s.fields, s.isOpen || t.isOpen⟩

/-- The properties of all of some types. -/
def mergeAll (shapes : List Shape) : Shape := shapes.foldl merge empty

/-- The properties that all of some types have; if one of them is open, the result is open. -/
def common (shapes : List Shape) : Shape :=
  if shapes.any (·.isOpen) then shapes.foldl merge unknown
  else
    match shapes with
    | [] => unknown
    | first :: rest =>
      ⟨first.fields.filter fun e => rest.all fun s => s.fields.any (·.1 = e.1), false⟩

/-- The shape with every property optional or not. -/
def withOptional (s : Shape) (optional : Bool) : Shape :=
  { s with fields := s.fields.map fun e => (e.1, { e.2 with optional }) }

end Shape

/-! ### Declarations -/

/-- What a declaration says about a type. -/
inductive DeclaredType
  | interface (parents : List TypeExpr) (body : List Member)
  | alias (value : Option TypeExpr)
  deriving Inhabited

/-- A declaration of a type. -/
structure TypeDecl where
  declared : DeclaredType
  builtin : Bool
  deriving Inhabited

/-- The declarations of types, by name. -/
structure TypeEnv where
  decls : List (String × List TypeDecl)
  deriving Inhabited

/-- The types that an interface extends. -/
def Syntax.Source.parentTypes (s : Source) (t : Tree) : List TypeExpr :=
  (t.named.filter (·.is .extendsTypeClause)).flatMap fun clause => s.typeExprs clause.children

/-- The members of the body of an interface. -/
def Syntax.Source.bodyMembers (s : Source) (t : Tree) : List Member :=
  ((t.field? .body).map fun body => s.members none body.children).getD []

/-- What the declaration of a type that a node is says. -/
def Syntax.Source.declaredType (s : Source) (t : Tree) : DeclaredType :=
  if t.is .interfaceDeclaration then .interface (s.parentTypes t) (s.bodyMembers t)
  else .alias ((t.field? .value).map s.typeExpr)

/-- Whether a node declares a type. -/
def isTypeDeclaration (t : Tree) : Bool :=
  t.isAny [.interfaceDeclaration, .typeAliasDeclaration]

/-- The declarations of types in a source, in reading order, those inside others left out. -/
def Syntax.Source.typeDecls (s : Source) (builtin : Bool) : List (String × TypeDecl) :=
  ((s.root.walk fun t => if isTypeDeclaration t then .keep else .enter).filter
    isTypeDeclaration).filterMap fun t =>
      (t.field? .name).map fun name => (s.textOf name, ⟨s.declaredType t, builtin⟩)

namespace TypeEnv

/-- The declarations with one more: a declaration of the flow replaces built-in ones. -/
def declare (env : TypeEnv) (name : String) (d : TypeDecl) : TypeEnv :=
  let old := (Keyed.get? env.decls name).getD []
  let kept := if !d.builtin && old.all (·.builtin) then [] else old
  ⟨Keyed.put name (kept ++ [d]) env.decls⟩

/-- The declarations of some lists of declarations, one after the other. -/
def ofDecls (decls : List (String × TypeDecl)) : TypeEnv :=
  decls.foldl (fun env e => env.declare e.1 e.2) ⟨[]⟩

/-- The declarations of a flow, and the built-in ones that it does not replace. -/
def of (flow : Source) (builtins : Option Source) : TypeEnv :=
  ofDecls (((builtins.map (·.typeDecls true)).getD []) ++ flow.typeDecls false)

/-- The declarations of a name. -/
def declsOf? (env : TypeEnv) (name : String) : Option (List TypeDecl) := Keyed.get? env.decls name

/-- Whether a name is declared. -/
def isKnown (env : TypeEnv) (name : String) : Bool := (env.declsOf? name).isSome

/-- Whether a name is declared by the flow. -/
def isFlowDeclared (env : TypeEnv) (name : String) : Bool :=
  (env.declsOf? name).any fun ds => ds.any fun d => !d.builtin

/-! ### Shapes -/

/-- The property that a member adds to a shape. -/
def addMember (builtin : Bool) (s : Shape) : Member → Shape
  | .property name optional type doc =>
    { s with fields := Keyed.put name ⟨optional, type, builtin, doc⟩ s.fields }
  | .index => { s with isOpen := true }

/-- The shape of an object type. -/
def shapeOfMembers (builtin : Bool) (members : List Member) : Shape :=
  members.foldl (addMember builtin) .empty

/-- What the types with type arguments that change only whether properties are optional do. -/
def modifier? (name : String) : Option (Shape → Shape) :=
  match name with
  | "Partial" => some (·.withOptional true)
  | "Required" => some (·.withOptional false)
  | "Readonly" => some id
  | _ => none

mutual

/-- The shape of a type expression, where `ofName` finds the shape of a name. -/
def shapeWith (env : TypeEnv) (ofName : String → Shape) (builtin : Bool) : TypeExpr → Shape
  | .wrapped inner => shapeWith env ofName builtin inner
  | .named name => ofName name
  | .generic name arguments =>
    let declared := if env.isKnown name then ofName name else .unknown
    match modifier? name with
    | some modify => ((shapeOfFirst env ofName builtin arguments).map modify).getD declared
    | none => declared
  | .object members => shapeOfMembers builtin members
  | .intersection parts => .mergeAll (shapesWith env ofName builtin parts)
  | .union parts => .common (shapesOfPresent env ofName builtin parts)
  | _ => .unknown

/-- The shape of the first of some type expressions. -/
def shapeOfFirst (env : TypeEnv) (ofName : String → Shape) (builtin : Bool) :
    List TypeExpr → Option Shape
  | [] => none
  | t :: _ => some (shapeWith env ofName builtin t)

/-- The shapes of some type expressions. -/
def shapesWith (env : TypeEnv) (ofName : String → Shape) (builtin : Bool) :
    List TypeExpr → List Shape
  | [] => []
  | t :: ts => shapeWith env ofName builtin t :: shapesWith env ofName builtin ts

/-- The shapes of some type expressions, `null` and `undefined` left out. -/
def shapesOfPresent (env : TypeEnv) (ofName : String → Shape) (builtin : Bool) :
    List TypeExpr → List Shape
  | [] => []
  | t :: ts =>
    if t.isNullish then shapesOfPresent env ofName builtin ts
    else shapeWith env ofName builtin t :: shapesOfPresent env ofName builtin ts

end

/-- The shape of a declaration. -/
def shapeOfDecl (env : TypeEnv) (ofName : String → Shape) (d : TypeDecl) : Shape :=
  match d.declared with
  | .interface parents body =>
    (Shape.mergeAll (shapesWith env ofName d.builtin parents)).merge
      (shapeOfMembers d.builtin body)
  | .alias value => (value.map (shapeWith env ofName d.builtin)).getD .empty

/-- The shape of a name, where `visiting` are the names on the way to it and `n` bounds how many
there may be.  A name on the way to itself is open. -/
def shapeOfNameAmong (env : TypeEnv) : Nat → List String → String → Shape
  | 0, _, _ => .unknown
  | n + 1, visiting, name =>
    if visiting.contains name then .unknown
    else
      match env.declsOf? name with
      | none => .unknown
      | some ds => .mergeAll (ds.map (env.shapeOfDecl (shapeOfNameAmong env n (name :: visiting))))

/-- The shape of a name. -/
def shapeOfName (env : TypeEnv) (name : String) : Shape :=
  env.shapeOfNameAmong (env.decls.length + 1) [] name

/-- The shape of a type expression of the flow. -/
def shapeOf (env : TypeEnv) (t : TypeExpr) : Shape := env.shapeWith env.shapeOfName false t

end TypeEnv

end FlowAnalysis
