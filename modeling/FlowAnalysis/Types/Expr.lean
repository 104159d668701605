import FlowAnalysis.Flow.Literal
import FlowAnalysis.Json.Reader

/-!
# Type expressions

The types that a flow writes down, as far as their properties can be found out.

## Main definitions

* `TypeExpr`, `Member` — type expressions and the members of object types.
* `Source.typeExpr` — the type expression of a node.
* `TypeExpr.alternatives` — the members of a union, nested unions opened up.
-/

namespace FlowAnalysis

open Syntax

/-- A literal that stands for the type of its value. -/
inductive LiteralType
  | string (s : String)
  /-- Any other literal that is a value of JSON. -/
  | value (v : Json)
  | undefined
  /-- A literal without a value of JSON. -/
  | other
  deriving Repr, Inhabited

mutual

/-- A type expression. -/
inductive TypeExpr
  /-- A built-in type. -/
  | builtin (name : String)
  | named (name : String)
  | generic (name : String) (arguments : List TypeExpr)
  | object (members : List Member)
  | intersection (parts : List TypeExpr)
  | union (parts : List TypeExpr)
  | array (items : TypeExpr)
  | literal (value : LiteralType)
  /-- A type in parentheses, behind a colon or behind `readonly`. -/
  | wrapped (inner : TypeExpr)
  /-- Anything else. -/
  | other

/-- A member of an object type. -/
inductive Member
  | property (name : String) (optional : Bool) (type : Option TypeExpr) (doc : Option String)
  /-- Properties of any name. -/
  | index

end

instance : Inhabited TypeExpr := ⟨.other⟩
instance : Inhabited Member := ⟨.index⟩

/-! ### From trees -/

/-- A text without the asterisks at its beginning. -/
def dropAsterisks (text : List Char) : List Char := text.dropWhile (· = '*')

/-- The lines of a comment without their decoration. -/
def commentLines (inside : List Char) : List (List Char) :=
  ((Text.lines inside).map fun l => Text.trim (dropAsterisks (Text.trim l))).filter (· ≠ [])

/-- The text of a documentation comment, if the comment is one and is not empty. -/
def docText? (comment : List Char) : Option String :=
  let rest := comment.drop 3
  if "/**".toList.isPrefixOf comment && "*/".toList.isSuffixOf rest then
    match commentLines (rest.take (rest.length - 2)) with
    | [] => none
    | lines => some (String.ofList (List.intercalate [' '] lines))
  else none

namespace Syntax.Source

/-- The documentation that a node is. -/
def docOf? (s : Source) (t : Tree) : Option String :=
  if t.is .comment then docText? (s.chars t) else none

/-- The literal that a node is. -/
def literalTypeOf (s : Source) (t : Tree) : LiteralType :=
  match t.label with
  | .rule .string => ((s.stringValue? t).map LiteralType.string).getD .other
  | .rule .number | .rule .unaryExpression =>
    match Json.ofChars? (s.chars t) with
    | some v => if v.usable then .value v else .other
    | none => .other
  | .rule .trueLiteral => .value (.bool true)
  | .rule .falseLiteral => .value (.bool false)
  | .rule .nullLiteral => .value .null
  | .rule .undefined => .undefined
  | _ => .other

mutual

/-- The type expression of a node. -/
def typeExpr (s : Source) : Tree → TypeExpr
  | .node l r span ts =>
    let t := Tree.node l r span ts
    match l with
    | .rule .typeAscription | .rule .parenthesizedType | .rule .readonlyType =>
      match typeExprs s ts with
      | first :: _ => .wrapped first
      | [] => .other
    | .rule .typeIdentifier => .named (s.textOf t)
    | .rule .predefinedType => .builtin (s.textOf t)
    | .rule .genericType =>
      match t.field? .name with
      | some name => .generic (s.textOf name) (argumentsIn s ts)
      | none => .other
    | .rule .objectType | .rule .interfaceBody => .object (members s none ts)
    | .rule .intersectionType => .intersection (typeExprs s ts)
    | .rule .unionType => .union (typeExprs s ts)
    | .rule .arrayType =>
      match typeExprs s ts with
      | first :: _ => .array first
      | [] => .other
    | .rule .literalType =>
      .literal ((t.firstNamed?.map s.literalTypeOf).getD .other)
    | _ => .other

/-- The type expressions of the named nodes among some nodes. -/
def typeExprs (s : Source) : List Tree → List TypeExpr
  | [] => []
  | t :: ts => if t.isNamed && !t.is .comment then typeExpr s t :: typeExprs s ts
    else typeExprs s ts

/-- The type expressions inside a node. -/
def typeExprsBelow (s : Source) : Tree → List TypeExpr
  | .node _ _ _ ts => typeExprs s ts

/-- The type arguments among the children of a node. -/
def argumentsIn (s : Source) : List Tree → List TypeExpr
  | [] => []
  | t :: ts => if t.role = some .typeArguments then typeExprsBelow s t else argumentsIn s ts

/-- The type among the children of a node. -/
def typeIn (s : Source) : List Tree → Option TypeExpr
  | [] => none
  | t :: ts => if t.role = some .type then some (typeExpr s t) else typeIn s ts

/-- The member that a node is, with the documentation in front of it. -/
def member (s : Source) (doc : Option String) : Tree → List Member
  | .node l r span ts =>
    let t := Tree.node l r span ts
    let optional := ts.any (·.isToken "?")
    if t.is .indexSignature then [.index]
    else
      match (t.field? .name).bind s.propertyName? with
      | some name =>
        if t.is .propertySignature then [.property name optional (typeIn s ts) doc]
        else if t.is .methodSignature then [.property name optional none doc]
        else []
      | none => []

/-- The members among some nodes, where `doc` is the documentation that stands in front. -/
def members (s : Source) (doc : Option String) : List Tree → List Member
  | [] => []
  | t :: ts => member s doc t ++ members s (s.docOf? t) ts

end

end Syntax.Source

namespace TypeExpr

/-- Whether a type is `null` or `undefined`. -/
def isNullish : TypeExpr → Bool
  | literal (.value .null) | literal .undefined => true
  | _ => false

mutual

/-- The members of a union, nested unions opened up; any other type is its only member. -/
def alternatives : TypeExpr → List TypeExpr
  | union parts => alternativesOf parts
  | t => [t]

/-- The members of several types. -/
def alternativesOf : List TypeExpr → List TypeExpr
  | [] => []
  | t :: ts => alternatives t ++ alternativesOf ts

end

/-- A type without the wrappers around it. -/
def bare : TypeExpr → TypeExpr
  | wrapped inner => inner.bare
  | t => t

end TypeExpr

end FlowAnalysis
