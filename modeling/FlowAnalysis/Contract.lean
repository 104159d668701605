import FlowAnalysis.Json.Decode
import FlowAnalysis.Json.Writer
import FlowAnalysis.Text.Blank

/-!
# Parameter contracts

What parameters a bubble takes: either the fields of one object, or one object out of several,
chosen by the literal value of a discriminating field.

## Main definitions

* `FieldSchema`, `ObjectSchema`, `Contract` — the contracts.
* `FieldSchema.describe` — a field's type as it is shown to the reader of a diagnostic.
* `FieldSchema.ofJson?`, `FieldSchema.toJson` — how contracts are read and written.
-/

namespace FlowAnalysis

mutual

/-- What values a field takes. -/
inductive FieldSchema
  /-- A text, perhaps one out of a list. -/
  | string (values : Option (List String))
  | number
  | boolean
  | array (items : FieldSchema)
  | object (schema : ObjectSchema)
  /-- One value. -/
  | literal (value : Json)
  | oneOf (variants : List FieldSchema)
  | any

/-- The fields of an object. -/
inductive ObjectSchema
  | mk (name : Option String) (properties : List (String × FieldSchema))
    (required : List String) (additional : Bool)

end

deriving instance Repr for FieldSchema
deriving instance Repr for ObjectSchema

instance : Inhabited FieldSchema := ⟨.any⟩
instance : Inhabited ObjectSchema := ⟨⟨none, [], [], false⟩⟩

namespace ObjectSchema

/-- The name of the type that the object has. -/
def name : ObjectSchema → Option String
  | mk n _ _ _ => n

/-- The fields with their schemas, in their order. -/
def properties : ObjectSchema → List (String × FieldSchema)
  | mk _ ps _ _ => ps

/-- The fields that must be there. -/
def required : ObjectSchema → List String
  | mk _ _ r _ => r

/-- Whether other fields may be there too. -/
def additional : ObjectSchema → Bool
  | mk _ _ _ a => a

/-- The schema of a field. -/
def property? (s : ObjectSchema) (field : String) : Option FieldSchema :=
  Keyed.get? s.properties field

/-- The names of the fields of a record that is a schema of an object. -/
def fieldNames : List String := ["name", "properties", "required", "additional_properties"]

end ObjectSchema

/-- The parameters that a bubble takes. -/
inductive Contract
  | object (schema : ObjectSchema)
  /-- One of several objects, chosen by the value of a field. -/
  | union (discriminator : String) (variants : List (String × ObjectSchema))
  deriving Repr

namespace Contract

/-- The contract that takes everything. -/
def permissive : Contract := .object ⟨none, [], [], true⟩

instance : Inhabited Contract := ⟨permissive⟩

/-- The field that chooses between variants. -/
def discriminator? : Contract → Option String
  | object _ => none
  | union d _ => some d

/-- The values of the discriminating field. -/
def operations : Contract → List String
  | object _ => []
  | union _ vs => vs.map (·.1)

end Contract

/-! ### Descriptions -/

/-- Texts with a separator between them. -/
def joined (separator : String) (parts : List String) : String := String.intercalate separator parts

/-- What stands between the alternatives of a type. -/
def alternativeMark : String := " | "

/-- The type of the arrays of a type; a type with alternatives is put into parentheses. -/
def arrayOf (inner : String) : String :=
  if Text.occursIn alternativeMark.toList inner.toList then "(" ++ inner ++ ")[]"
  else inner ++ "[]"

mutual

/-- A field's type as it is shown to the reader of a diagnostic. -/
def FieldSchema.describe : FieldSchema → String
  | .string (some (v :: vs)) =>
    joined alternativeMark ((v :: vs).map fun v => "\"" ++ v ++ "\"")
  | .string _ => "string"
  | .number => "number"
  | .boolean => "boolean"
  | .array items => arrayOf items.describe
  | .object s => s.name.getD "object"
  | .literal v => v.compact
  | .oneOf vs => joined alternativeMark (FieldSchema.describeAll vs)
  | .any => "any"

/-- The types of several fields as they are shown. -/
def FieldSchema.describeAll : List FieldSchema → List String
  | [] => []
  | v :: vs => v.describe :: FieldSchema.describeAll vs

end

/-! ### Reading -/

open Json (Fields)

/-- The forms of the schemas of fields, in the order of their numbers. -/
def FieldSchema.forms : List String :=
  ["string", "number", "boolean", "array", "object", "literal", "one_of", "any"]

mutual

/-- Reads the schema of a field; `n` bounds the nesting of the value. -/
def FieldSchema.decode : Nat → Json → Option FieldSchema
  | 0, _ => none
  | n + 1, v =>
    match v.tagged? FieldSchema.forms with
    | some ("string", rest) => do
      let f ← rest.fields? ["values"]
      .string <$> f.optional "values" Json.asStrings?
    | some ("number", rest) => rest.nothingMore .number
    | some ("boolean", rest) => rest.nothingMore .boolean
    | some ("array", rest) => do
      let f ← rest.fields? ["items"]
      .array <$> f.required "items" (FieldSchema.decode n)
    | some ("object", rest) => .object <$> ObjectSchema.decode n rest
    | some ("literal", rest) => do
      let f ← rest.fields? ["value"]
      .literal <$> f.required "value" Json.asAny?
    | some ("one_of", rest) => do
      let f ← rest.fields? ["variants"]
      .oneOf <$> f.required "variants" (Json.asList? (FieldSchema.decode n))
    | some ("any", rest) => rest.nothingMore .any
    | _ => none

/-- Reads the schema of an object. -/
def ObjectSchema.decode : Nat → Json → Option ObjectSchema
  | 0, _ => none
  | n + 1, v => do
    let f ← v.fields? ObjectSchema.fieldNames
    return ⟨← f.optional "name" Json.asString?,
      ← f.withDefault "properties" (Json.asMap? (FieldSchema.decode n)) [],
      ← f.withDefault "required" Json.asStrings? [],
      ← f.withDefault "additional_properties" Json.asBool? false⟩

end

/-- How much work it takes to read a value: two steps for each level of nesting. -/
def decodingSteps (v : Json) : Nat := 2 * v.depth + 2

/-- The schema of a field that a value describes, with `limit` levels of nesting left.  A value
that stands on its own names its form. -/
def FieldSchema.ofJson? (limit : Nat) (v : Json) : Option FieldSchema :=
  if v.fits limit && (v.tagged? []).isSome then FieldSchema.decode (decodingSteps v) v else none

/-- The contract that a value describes, with `limit` levels of nesting left. -/
def Contract.ofJson? (limit : Nat) (v : Json) : Option Contract :=
  if v.fits limit then
    match v.tagged? [] with
    | some ("object", rest) => .object <$> ObjectSchema.decode (decodingSteps v) rest
    | some ("discriminated_union", rest) => do
      let f ← rest.fields? ["discriminator", "variants"]
      return .union (← f.required "discriminator" Json.asString?)
        (← f.required "variants" (Json.asMap? (ObjectSchema.decode (decodingSteps v))))
    | _ => none
  else none

/-! ### Writing -/

mutual

/-- A schema as a value. -/
def FieldSchema.toJson : FieldSchema → Json
  | .string values =>
    .object (("type", .string "string") :: Json.entry? "values" (values.map Json.strings))
  | .number => .object [("type", .string "number")]
  | .boolean => .object [("type", .string "boolean")]
  | .array items => .object [("type", .string "array"), ("items", items.toJson)]
  | .object s => .object (("type", .string "object") :: s.toEntries)
  | .literal v => .object [("type", .string "literal"), ("value", v)]
  | .oneOf vs => .object [("type", .string "one_of"), ("variants", .array (FieldSchema.toJsons vs))]
  | .any => .object [("type", .string "any")]

/-- Schemas as values. -/
def FieldSchema.toJsons : List FieldSchema → List Json
  | [] => []
  | v :: vs => v.toJson :: FieldSchema.toJsons vs

/-- Named schemas as entries. -/
def FieldSchema.toJsonEntries : List (String × FieldSchema) → List (String × Json)
  | [] => []
  | (k, v) :: es => (k, v.toJson) :: FieldSchema.toJsonEntries es

/-- The schema of an object as entries. -/
def ObjectSchema.toEntries : ObjectSchema → List (String × Json)
  | ⟨name, properties, required, additional⟩ =>
    Json.entry? "name" (name.map Json.string) ++
      [("properties", .object (FieldSchema.toJsonEntries properties)),
        ("required", Json.strings required), ("additional_properties", .bool additional)]

end

/-- The schema of an object as a value. -/
def ObjectSchema.toJson (s : ObjectSchema) : Json := .object s.toEntries

/-- A contract as a value. -/
def Contract.toJson : Contract → Json
  | .object s => .object (("type", .string "object") :: s.toEntries)
  | .union d vs =>
    .object [("type", .string "discriminated_union"), ("discriminator", .string d),
      ("variants", .object (vs.map fun e => (e.1, e.2.toJson)))]

end FlowAnalysis
