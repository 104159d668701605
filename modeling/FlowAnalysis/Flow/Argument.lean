import FlowAnalysis.Flow.Literal

/-!
# Arguments of constructions

What the source says about the value of an argument: a literal, a reference to a value from
elsewhere, or something that is computed.

## Main definitions

* `Argument`, `Entry` — a classified expression and an entry of an object.
* `Source.classify` — the classification.
* `Argument.toJson?` — the value of an expression that is a literal throughout.
* `Argument.typeName?` — the type of a literal.
-/

namespace FlowAnalysis

open Syntax

mutual

/-- A classified expression. -/
inductive Argument
  | string (s : String)
  | number (n : Number)
  | bool (b : Bool)
  | null
  | undefined
  | object (entries : List Entry)
  | array (items : List Argument)
  /-- A name, a member or an element: a value from elsewhere. -/
  | reference
  /-- Anything else. -/
  | computed

/-- An entry of an object. -/
inductive Entry
  | property (key : String) (keyNode : Tree) (value : Argument) (valueNode : Tree)
  | spread (node : Tree)
  /-- A method, or a property whose name is computed. -/
  | other (node : Tree)

end

instance : Inhabited Argument := ⟨.computed⟩
instance : Inhabited Entry := ⟨.other default⟩

namespace Syntax.Source

/-- A number, as an argument. -/
def numberArgument (s : Source) (negative : Bool) (t : Tree) : Argument :=
  match Literal.numberOf? negative (s.chars t) with
  | some n => .number n
  | none => .computed

/-- An expression with an operator in front: a number with a minus is a literal. -/
def signedArgument (s : Source) (t : Tree) : Argument :=
  match t.field? .operator, t.field? .argument with
  | some operator, some argument =>
    if operator.isToken "-" && argument.bare.is .number then
      s.numberArgument true argument.bare
    else .computed
  | _, _ => .computed

/-- The argument that an expression without parts of interest is. -/
def leafArgument (s : Source) (t : Tree) : Argument :=
  match t.label with
  | .rule .string | .rule .templateString =>
    match s.stringValue? t with
    | some v => .string v
    | none => .computed
  | .rule .number => s.numberArgument false t
  | .rule .trueLiteral => .bool true
  | .rule .falseLiteral => .bool false
  | .rule .nullLiteral => .null
  | .rule .undefined => .undefined
  | .rule .unaryExpression => s.signedArgument t
  | .rule .identifier | .rule .memberExpression | .rule .subscriptExpression | .rule .this =>
    .reference
  | _ => .computed

/-- Whether a child counts as a part of a literal: it is named and no comment. -/
def isPart (t : Tree) : Bool := t.isNamed && !t.is .comment

mutual

/-- Classifies an expression. -/
def classify (s : Source) : Tree → Argument
  | .node l r span ts =>
    let t := Tree.node l r span ts
    if t.isWrapper then classifyFirst s ts
    else if t.is .object then .object (entries s ts)
    else if t.is .array then
      if ts.any fun c => c.is .spreadElement then .computed else .array (classifyAll s ts)
    else s.leafArgument t

/-- Classifies the first part. -/
def classifyFirst (s : Source) : List Tree → Argument
  | [] => .computed
  | t :: ts => if isPart t then classify s t else classifyFirst s ts

/-- Classifies all parts. -/
def classifyAll (s : Source) : List Tree → List Argument
  | [] => []
  | t :: ts => if isPart t then classify s t :: classifyAll s ts else classifyAll s ts

/-- Classifies the first child in the role of a value. -/
def classifyValue (s : Source) : List Tree → Option (Argument × Tree)
  | [] => none
  | t :: ts => if t.role = some .value then some (classify s t, t) else classifyValue s ts

/-- An entry of an object. -/
def entry (s : Source) : Tree → Entry
  | .node l r span ts =>
    let t := Tree.node l r span ts
    if t.is .pair then
      match t.field? .key, classifyValue s ts with
      | some key, some (value, valueNode) =>
        match s.propertyName? key with
        | some name => .property name key value valueNode
        | none => .other t
      | _, _ => .other t
    else if t.is .shorthandPropertyIdentifier then .property (s.textOf t) t .reference t
    else if t.is .spreadElement then .spread t
    else .other t

/-- The entries of an object. -/
def entries (s : Source) : List Tree → List Entry
  | [] => []
  | t :: ts => if isPart t then entry s t :: entries s ts else entries s ts

end

end Syntax.Source

namespace Argument

mutual

/-- The value of an expression that is a literal throughout; the entries of objects are ordered
by key, and the last of a repeated entry counts. -/
def toJson? : Argument → Option Json
  | string s => some (.string s)
  | number n => some (.number n)
  | bool b => some (.bool b)
  | null => some .null
  | object es => (entriesToJson? es).map fun es => .object (Keyed.sorted Keyed.stringLt es)
  | array items => (itemsToJson? items).map .array
  | undefined | reference | computed => none

/-- The values of expressions that are literals throughout. -/
def itemsToJson? : List Argument → Option (List Json)
  | [] => some []
  | a :: as =>
    match toJson? a, itemsToJson? as with
    | some v, some vs => some (v :: vs)
    | _, _ => none

/-- An entry whose value is a literal throughout. -/
def entryToJson? : Entry → Option (String × Json)
  | .property key _ value _ => (toJson? value).map (key, ·)
  | .spread _ | .other _ => none

/-- Entries whose values are literals throughout. -/
def entriesToJson? : List Entry → Option (List (String × Json))
  | [] => some []
  | e :: es =>
    match entryToJson? e, entriesToJson? es with
    | some v, some vs => some (v :: vs)
    | _, _ => none

end

/-- The type of a literal. -/
def typeName? : Argument → Option String
  | string _ => some "string"
  | number _ => some "number"
  | bool _ => some "boolean"
  | null => some "null"
  | undefined => some "undefined"
  | object _ => some "object"
  | array _ => some "array"
  | reference | computed => none

/-- The entries of an object. -/
def entries : Argument → List Entry
  | object es => es
  | _ => []

end Argument

namespace Entry

/-- The key of a property. -/
def key? : Entry → Option String
  | property k _ _ _ => some k
  | _ => none

/-- The value of a property. -/
def value? : Entry → Option Argument
  | property _ _ v _ => some v
  | _ => none

end Entry

/-- The first property of an object with a name. -/
def Argument.property? (a : Argument) (name : String) : Option Entry :=
  a.entries.find? fun e => e.key? = some name

end FlowAnalysis
