import FlowAnalysis.Types.Payload

/-!
# The input schema of a flow

What a flow declares about its payload, as a JSON schema for the form in which runs are started.

## Main definitions

* `TypeEnv.schemaOf` — the schema of a type expression.
* `Flow.inputSchema?` — the schema of what the flow itself declares.
-/

namespace FlowAnalysis

namespace Schema

/-- The schema that takes everything. -/
def any : Json := .object []

/-- A schema with one entry, its type. -/
def ofType (name : String) : Json := .object [("type", .string name)]

/-- A schema of several entries, in the order of their keys. -/
def of (entries : List (String × Json)) : Json := .object (Keyed.sorted Keyed.stringLt entries)

/-- The schema of a list. -/
def list (items : Json) : Json := of [("type", .string "array"), ("items", items)]

/-- The schema of a built-in type. -/
def ofBuiltin (name : String) : Json :=
  if ["string", "number", "boolean", "null", "object"].contains name then ofType name else any

/-- The schema of a literal. -/
def ofLiteral : LiteralType → Json
  | .string s => .object [("const", .string s)]
  | .value v => .object [("const", v)]
  | .undefined | .other => any

/-- A schema with a description. -/
def describe (doc : Option String) (schema : Json) : Json :=
  match doc, schema with
  | some text, .object entries =>
    .object (Keyed.insert Keyed.stringLt "description" (.string text) entries)
  | _, v => v

/-- The text that a type is, if it is a literal text. -/
def text? : TypeExpr → Option String
  | .literal (.string s) => some s
  | _ => none

/-- The schema of the fields of an object. -/
def ofFields (ofType : TypeExpr → Json) (fields : List (String × FieldShape)) : Json :=
  let properties := fields.map fun e =>
    (e.1, describe e.2.doc ((e.2.type.map ofType).getD any))
  let required := (fields.filter fun e => !e.2.optional).map (·.1)
  of ([("type", .string "object"),
      ("properties", .object (Keyed.sorted Keyed.stringLt properties))] ++
    if required.isEmpty then [] else [("required", Json.strings required)])

/-- The schema of a shape. -/
def ofShape (ofType : TypeExpr → Json) (s : Shape) : Json :=
  if s.isOpen && s.fields.isEmpty then Schema.ofType "object" else ofFields ofType s.fields

/-- The schema of a union. -/
def ofUnion (ofType : TypeExpr → Json) (alternatives : List TypeExpr) : Json :=
  match alternatives.mapM text? with
  | some texts => of [("type", .string "string"), ("enum", Json.strings texts)]
  | none => .object [("anyOf", .array (alternatives.map ofType))]

end Schema

/-- How many levels of nested types a schema follows. -/
def maxSchemaDepth : Nat := 9

namespace TypeEnv

/-- The schema of a type with type arguments, where `next` is the schema of types one level
deeper. -/
def schemaOfGeneric (env : TypeEnv) (next : TypeExpr → Json) (name : String)
    (arguments : List TypeExpr) : Json :=
  let declared :=
    if env.isKnown name then Schema.ofShape next (env.shapeOfName name) else Schema.any
  match name, arguments with
  | "Array", [item] | "ReadonlyArray", [item] => Schema.list (next item)
  | "Record", [_, value] =>
    Schema.of [("type", .string "object"), ("additionalProperties", next value)]
  | "Partial", [_] | "Required", [_] | "Readonly", [_] =>
    Schema.ofShape next (env.shapeOf (.generic name arguments))
  | _, _ => declared

/-- The schema of a type expression, where at most `n` levels of nested types are followed. -/
def schemaOf (env : TypeEnv) : Nat → TypeExpr → Json
  | 0, _ => Schema.any
  | n + 1, t =>
    match t.bare with
    | .builtin name => Schema.ofBuiltin name
    | .literal v => Schema.ofLiteral v
    | .array items => Schema.list (schemaOf env n items)
    | .union parts => Schema.ofUnion (schemaOf env n) (TypeExpr.alternativesOf parts)
    | .object members => Schema.ofShape (schemaOf env n) (env.shapeOf (.object members))
    | .named name =>
      if name = "Date" then
        Schema.of [("type", .string "string"), ("format", .string "date-time")]
      else if env.isKnown name then Schema.ofShape (schemaOf env n) (env.shapeOfName name)
      else Schema.any
    | .generic name arguments => env.schemaOfGeneric (schemaOf env n) name arguments
    | _ => Schema.any

end TypeEnv

/-- The schema of the fields of the payload that the flow itself declares. -/
def Payload.schema? (p : Payload) (env : TypeEnv) : Option Json :=
  if p.declaredInFlow then
    some (Schema.ofFields (env.schemaOf maxSchemaDepth)
      (p.shape.fields.filter fun e => !e.2.builtin))
  else none

/-- The schema of what the flow itself declares about its payload. -/
def Flow.inputSchema? (f : Flow) : Option Json :=
  (f.payload? f.typeEnv).bind (·.schema? f.typeEnv)

end FlowAnalysis
