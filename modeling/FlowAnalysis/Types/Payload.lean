import FlowAnalysis.Flow.Basic
import FlowAnalysis.Types.Env
import FlowAnalysis.Types.Events

/-!
# The payload of a flow

The first parameter of the entry method receives the payload, and its declared type says which
properties may be read from it.

## Main definitions

* `Payload` — the parameter and the shape of its type.
* `Flow.payload?` — the payload of a flow.
* `Flow.checkPayload` — the properties that the entry method reads.
-/

namespace FlowAnalysis

open Syntax

/-- The first parameter of the entry method. -/
structure Payload where
  /-- The type as it is written. -/
  typeName : String
  /-- The name or the pattern that receives the payload. -/
  pattern : Tree
  shape : Shape
  /-- Whether the flow declares any part of the type. -/
  declaredInFlow : Bool

/-- The declarations that a flow can use. -/
def Flow.typeEnv (f : Flow) : TypeEnv := .of f.source builtinEvents

/-- Whether a type mentions a name that the flow declares. -/
def Flow.mentionsOwnType (f : Flow) (env : TypeEnv) (t : Tree) : Bool :=
  t.nodes.any fun n => n.is .typeIdentifier && env.isFlowDeclared (f.textOf n)

/-- The payload of a flow: the first parameter of its entry method, if it has a type. -/
def Flow.payload? (f : Flow) (env : TypeEnv) : Option Payload := do
  let entry ← f.entryMethod?
  let parameter ← entry.parameters.head?
  let pattern ← parameter.field? .pattern
  let type ← (parameter.field? .type).bind Tree.firstNamed?
  let shape := env.shapeOf (f.source.typeExpr type)
  return ⟨f.textOf type, pattern, shape,
    f.mentionsOwnType env type || shape.fields.any fun e => !e.2.builtin⟩

namespace Flow

/-! ### Bindings -/

/-- Whether a node is the given name. -/
def isNamed (f : Flow) (name : String) (t : Tree) : Bool :=
  t.bare.is .identifier && f.textOf t.bare = name

/-- Whether a node introduces a name by being that name. -/
def bindsName (f : Flow) (name : String) (t : Option Tree) : Bool :=
  t.any fun t => t.isAny [.identifier, .typeIdentifier] && f.textOf t = name

/-- Whether a statement introduces a name in the block around it. -/
def declares (f : Flow) (name : String) (t : Tree) : Bool :=
  if t.isAny [.lexicalDeclaration, .variableDeclaration] then
    (t.named.filter (·.is .variableDeclarator)).any fun d => f.bindsName name (d.field? .name)
  else if t.isAny [.functionDeclaration, .classDeclaration] then
    f.bindsName name (t.field? .name)
  else false

/-- Whether a function has a parameter of a name. -/
def rebinds (f : Flow) (name : String) (t : Tree) : Bool :=
  (parametersOf t).any fun p =>
    let pattern := (p.field? .pattern).getD p
    pattern.is .identifier && f.textOf pattern = name

/-- Whether a node opens a scope with a binding of its own for a name. -/
def shadows (f : Flow) (name : String) (t : Tree) : Bool :=
  if t.isFunctionLike then f.rebinds name t
  else if t.isAny [.statementBlock, .switchBody] then t.named.any (f.declares name)
  else if t.is .catchClause then f.bindsName name (t.field? .parameter)
  else if t.is .forInStatement then f.bindsName name (t.field? .left)
  else if t.is .forStatement then (t.field? .initializer).any (f.declares name)
  else false

/-! ### Reads -/

/-- The key that an element of an object pattern reads. -/
def patternKey? (t : Tree) : Option Tree :=
  if t.is .shorthandPropertyIdentifierPattern then some t
  else if t.is .pairPattern then t.field? .key
  else if t.is .objectAssignmentPattern then t.field? .left
  else none

/-- The keys that an object pattern reads. -/
def patternKeys (f : Flow) (pattern : Tree) : List (String × Tree) :=
  pattern.named.filterMap fun element =>
    (patternKey? element).bind fun key => (f.source.propertyName? key).map (·, key)

/-- The properties of a variable that a node reads. -/
def reads (f : Flow) (name : String) (t : Tree) : List (String × Tree) :=
  let isSelf := fun role => (t.field? role).any (f.isNamed name)
  if t.is .memberExpression then
    match t.field? .property with
    | some p => if isSelf .object && p.is .propertyIdentifier then [(f.textOf p, p)] else []
    | none => []
  else if t.is .subscriptExpression then
    match t.field? .index with
    | some i =>
      match f.source.stringValue? i.bare with
      | some key => if isSelf .object then [(key, i)] else []
      | none => []
    | none => []
  else if t.is .variableDeclarator then
    match t.field? .name with
    | some target => if isSelf .value && target.is .objectPattern then f.patternKeys target else []
    | none => []
  else []

/-- The properties of the payload that the entry method reads, in reading order. -/
def payloadReads (f : Flow) (p : Payload) (body : Tree) : List (String × Tree) :=
  if p.pattern.is .objectPattern then f.patternKeys p.pattern
  else if p.pattern.is .identifier then
    let name := f.textOf p.pattern
    (body.walkBelow (Tree.except (f.shadows name))).flatMap (f.reads name)
  else []

/-- Checks the properties of the payload that the entry method reads. -/
def checkPayload (f : Flow) : List Diagnostic :=
  match f.payload? f.typeEnv, f.entryMethod?.bind (·.body) with
  | some p, some body =>
    if p.shape.isOpen then []
    else
      ((f.payloadReads p body).filter fun e => !p.shape.has e.1).map fun e =>
        f.diagnosticAt e.2 (.payloadProperty e.1 p.typeName)
  | _, _ => []

end Flow

end FlowAnalysis
