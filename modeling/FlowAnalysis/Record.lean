import FlowAnalysis.Flow.Basic

/-!
# Parameter records

Each construction of a bubble becomes a record of its parameters, under a number that counts the
constructions in reading order from one.

## Main definitions

* `ParameterValue`, `Parameter`, `Record` — records.
* `Records` — records by number.
* `Flow.records` — the records of a flow.
* `Record.ofJson?`, `Record.toJson` — how records are read and written.
-/

namespace FlowAnalysis

open Syntax

/-- How a parameter is shown to whoever edits it. -/
inductive ParameterKind
  | boolean
  | number
  /-- A short text on one line. -/
  | string
  /-- A long text, or one with several lines. -/
  | text
  | object
  | array
  | null
  | expression
  deriving DecidableEq, Repr, Inhabited

namespace ParameterKind

/-- The words for the kinds. -/
def words : List (String × ParameterKind) :=
  [("boolean", boolean), ("number", number), ("string", string), ("text", text),
   ("object", object), ("array", array), ("null", null), ("expression", expression)]

/-- The word for a kind. -/
def toWord : ParameterKind → String
  | boolean => "boolean"
  | number => "number"
  | string => "string"
  | text => "text"
  | object => "object"
  | array => "array"
  | null => "null"
  | expression => "expression"

/-- The kind of a literal, where texts of more than `threshold` characters are long. -/
def ofLiteral (threshold : Nat) : Json → ParameterKind
  | .bool _ => boolean
  | .number _ => number
  | .string s => if s.toList.contains '\n' || threshold < s.length then text else string
  | .array _ => array
  | .object _ => object
  | .null | .meaningless => null

end ParameterKind

/-- What a record says about a value. -/
inductive ParameterValue
  | literal (value : Json)
  /-- A value that is not literal, as its source text. -/
  | expression (source : String)
  deriving Repr, Inhabited

/-- One parameter of a construction. -/
structure Parameter where
  name : String
  value : ParameterValue
  kind : ParameterKind
  editable : Bool
  deriving Repr, Inhabited

/-- Where a construction begins and ends. -/
structure Extent where
  start : Location
  stop : Location
  deriving DecidableEq, Repr, Inhabited

/-- The parameters of one construction. -/
structure Record where
  number : Nat
  variableName : String
  className : String
  displayName : Option String
  kind : Option BubbleKind
  operation : Option String
  extent : Extent
  parameters : List Parameter
  deriving Repr, Inhabited

/-- Records by number, in the order of the numbers. -/
abbrev Records := List (Nat × Record)

namespace Record

/-- The first parameter with a name. -/
def parameter? (r : Record) (name : String) : Option Parameter :=
  r.parameters.find? (·.name = name)

end Record

/-! ### The records of a flow -/

/-- The field that names an operation where no contract names another. -/
def defaultOperationField : String := "operation"

/-- The name of a parameter that stands for all of them. -/
def wholeName : String := "params"

/-- Where a node begins and ends. -/
def Syntax.Source.extentOf (s : Source) (t : Tree) : Extent := ⟨s.startOf t, s.stopOf t⟩

namespace Flow

/-- The field of a construction that names its operation. -/
def operationField (registry : Registry) (className : String) : String :=
  ((registry.resolve? className).bind (·.contract.discriminator?)).getD defaultOperationField

/-- The operation of a construction, where a literal text names it in the given field. -/
def operation? (f : Flow) (c : Construction) (field : String) : Option String :=
  c.paramsObject?.bind fun params =>
    match ((f.source.classify params).property? field).bind Entry.value? with
    | some (.string s) => some s
    | _ => none

/-- A parameter whose value is not literal. -/
def expressionParameter (f : Flow) (name : String) (t : Tree) (kind : ParameterKind) : Parameter :=
  ⟨name, .expression (f.textOf t), kind, false⟩

/-- A parameter with a classified value. -/
def parameterOf (f : Flow) (config : Config) (name : String) (a : Argument) (t : Tree) :
    Parameter :=
  match a.toJson? with
  | some v => ⟨name, .literal v, .ofLiteral config.longTextThreshold v, true⟩
  | none =>
    match a with
    | .object _ => f.expressionParameter name t .object
    | .array _ => f.expressionParameter name t .array
    | _ => f.expressionParameter name t .expression

/-- The parameter that an entry of an object is. -/
def parameterOfEntry (f : Flow) (config : Config) : Entry → Parameter
  | .property key _ value node => f.parameterOf config key value node
  | .spread t | .other t => f.expressionParameter (f.textOf t) t .expression

/-- The parameters of a construction. -/
def parametersOfConstruction (f : Flow) (config : Config) (c : Construction) : List Parameter :=
  match c.arguments with
  | [] => []
  | first :: _ =>
    match f.source.classify first with
    | .object es => es.map (f.parameterOfEntry config)
    | a => [f.parameterOf config wholeName a first]

/-- The record of the construction with a number. -/
def recordOf (f : Flow) (registry : Registry) (config : Config) (number : Nat)
    (c : Construction) : Record :=
  let known := registry.resolve? c.className
  { number
    variableName :=
      c.binding.getD ("_anonymous_" ++ c.className ++ "_" ++ toString number)
    className := c.className
    displayName := known.bind (·.displayName)
    kind := known.map (·.kind)
    operation := f.operation? c (operationField registry c.className)
    extent := f.source.extentOf c.node
    parameters := f.parametersOfConstruction config c }

/-- The records of a flow. -/
def records (f : Flow) (registry : Registry) (config : Config) : Records :=
  f.constructions.mapIdx fun i c => (i + 1, f.recordOf registry config (i + 1) c)

end Flow

/-! ### Reading and writing -/

/-- A place as a value. -/
def Location.toJson (l : Location) : Json :=
  .object [("line", Json.nat l.line), ("column", Json.nat l.column)]

/-- Reads a place. -/
def Location.ofJson? (v : Json) : Option Location := do
  let f ← v.fields? ["line", "column"]
  return ⟨← f.required "line" Json.asSize?, ← f.required "column" Json.asSize?⟩

namespace Extent

/-- Where a construction begins and ends, as a value. -/
def toJson (e : Extent) : Json := .object [("start", e.start.toJson), ("end", e.stop.toJson)]

/-- Reads where a construction begins and ends. -/
def ofJson? (v : Json) : Option Extent := do
  let f ← v.fields? ["start", "end"]
  return ⟨← f.required "start" Location.ofJson?, ← f.required "end" Location.ofJson?⟩

end Extent

namespace ParameterValue

/-- What a record says about a value, as a value. -/
def toJson : ParameterValue → Json
  | literal v => .object [("type", .string "literal"), ("value", v)]
  | expression s => .object [("type", .string "expression"), ("source", .string s)]

/-- Reads what a record says about a value. -/
def ofJson? (v : Json) : Option ParameterValue :=
  if v.usable then
    match v.tagged? [] with
    | some ("literal", rest) => do
      let f ← rest.fields? ["value"]
      literal <$> f.required "value" Json.asAny?
    | some ("expression", rest) => do
      let f ← rest.fields? ["source"]
      expression <$> f.required "source" Json.asString?
    | _ => none
  else none

end ParameterValue

namespace Parameter

/-- A parameter as a value. -/
def toJson (p : Parameter) : Json :=
  .object [("name", .string p.name), ("value", p.value.toJson), ("kind", .string p.kind.toWord),
    ("editable", .bool p.editable)]

/-- Reads a parameter. -/
def ofJson? (v : Json) : Option Parameter := do
  let f ← v.fields? ["name", "value", "kind", "editable"]
  return ⟨← f.required "name" Json.asString?, ← f.required "value" ParameterValue.ofJson?,
    ← f.required "kind" (Json.asWord? ParameterKind.words),
    ← f.required "editable" Json.asBool?⟩

end Parameter

namespace Record

/-- A record as a value. -/
def toJson (r : Record) : Json :=
  .object ([("variable_id", Json.nat r.number), ("variable_name", .string r.variableName),
      ("class_name", .string r.className)] ++
    Json.entry? "display_name" (r.displayName.map Json.string) ++
    Json.entry? "bubble_kind" (r.kind.map BubbleKind.toJson) ++
    Json.entry? "operation" (r.operation.map Json.string) ++
    [("location", r.extent.toJson), ("parameters", .array (r.parameters.map Parameter.toJson))])

/-- Reads a record. -/
def ofJson? (v : Json) : Option Record := do
  let f ← v.fields? ["variable_id", "variable_name", "class_name", "display_name", "bubble_kind",
    "operation", "location", "parameters"]
  return {
    number := ← f.required "variable_id" (Json.asNat? (Nat.pow 2 32))
    variableName := ← f.required "variable_name" Json.asString?
    className := ← f.required "class_name" Json.asString?
    displayName := ← f.nullable "display_name" Json.asString?
    kind := ← f.nullable "bubble_kind" (Json.asWord? BubbleKind.words)
    operation := ← f.nullable "operation" Json.asString?
    extent := ← f.required "location" Extent.ofJson?
    parameters := ← f.required "parameters" (Json.asList? Parameter.ofJson?) }

end Record

namespace Records

/-- Reads the number of a record: decimal digits that do not begin with a needless zero. -/
def number? (key : String) : Option Nat :=
  let digits := key.toList
  let n := digits.foldl (fun n c => n * 10 + (c.toNat - 48)) 0
  if digits ≠ [] && digits.all Char.isDigit && (digits.head? ≠ some '0' || digits = ['0']) &&
      n < Nat.pow 2 32 then some n
  else none

/-- Records as a value. -/
def toJson (rs : Records) : Json :=
  .object (rs.map fun e => (toString e.1, e.2.toJson))

/-- Reads records. -/
def ofJson? : Json → Option Records
  | .object entries => do
    let es ← entries.mapM fun e => do
      return (← number? e.1, ← Record.ofJson? e.2)
    return Keyed.sorted Keyed.natLt es
  | _ => none

end Records

end FlowAnalysis
