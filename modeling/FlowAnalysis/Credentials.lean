import FlowAnalysis.Record

/-!
# Credentials

Which kinds of credentials a flow needs for the classes and operations that it uses, and how
handles of credentials get into its records.

## Main definitions

* `Requirements` — kinds of credentials by class.
* `Flow.requirements` — what a flow needs.
* `Records.inject` — records with handles for all kinds that their classes need.
-/

namespace FlowAnalysis

/-- The kinds of credentials that classes need; classes and kinds are in order. -/
abbrev Requirements := List (String × List String)

/-- Handles of credentials by kind. -/
abbrev Handles := List (String × String)

/-- The name of the parameter that holds handles of credentials. -/
def credentialsName : String := "credentials"

/-- A set of texts, in order, with one more element. -/
def insertText (s : String) (set : List String) : List String :=
  (Keyed.insert Keyed.stringLt s () (set.map (·, ()))).map (·.1)

/-- A set of texts, in order, with more elements. -/
def insertTexts (more : List String) (set : List String) : List String :=
  more.foldl (fun acc s => insertText s acc) set

namespace Requirements

/-- What is needed, with more kinds for a class. -/
def add (r : Requirements) (className : String) (kinds : List String) : Requirements :=
  let old := (Keyed.get? r className).getD []
  Keyed.insert Keyed.stringLt className (insertTexts kinds old) r

/-- What is needed, as a value. -/
def toJson (r : Requirements) : Json := .object (r.map fun e => (e.1, Json.strings e.2))

/-- Reads what is needed. -/
def ofJson? (v : Json) : Option Requirements :=
  (Json.asMap? Json.asStrings? v).map fun es =>
    Keyed.sorted Keyed.stringLt (es.map fun e => (e.1, insertTexts e.2 []))

end Requirements

/-- The kinds of credentials that a construction needs. -/
def Flow.kindsOf (f : Flow) (registry : Registry) (c : Construction) : List String :=
  match registry.resolve? c.className with
  | some d => d.credentials.forOperation (f.operation? c (operationField registry c.className))
  | none => []

/-- What a flow needs. -/
def Flow.requirements (f : Flow) (registry : Registry) : Requirements :=
  f.constructions.foldl (fun r c =>
    match f.kindsOf registry c with
    | [] => r
    | kinds => r.add c.className kinds) []

/-! ### Injection -/

/-- The handles of some kinds, as a literal. -/
def Handles.literal (handles : Handles) (kinds : List String) : Json :=
  .object (Keyed.sorted Keyed.stringLt (kinds.filterMap fun k =>
    (Keyed.get? handles k).map fun h => (k, .string h)))

/-- The parameter that holds the handles of some kinds. -/
def Handles.parameter (handles : Handles) (kinds : List String) : Parameter :=
  ⟨credentialsName, .literal (handles.literal kinds), .object, false⟩

/-- Parameters with one put in the place of the first of its name, or at the end. -/
def putParameter (p : Parameter) : List Parameter → List Parameter
  | [] => [p]
  | q :: rest => if q.name = p.name then p :: rest else q :: putParameter p rest

/-- A record with the handles of the kinds that its class needs. -/
def Record.inject (r : Record) (needed : Requirements) (handles : Handles) : Record :=
  match Keyed.get? needed r.className with
  | some kinds => { r with parameters := putParameter (handles.parameter kinds) r.parameters }
  | none => r

/-- Records with the handles of the kinds that their classes need. -/
def Records.inject (rs : Records) (needed : Requirements) (handles : Handles) : Records :=
  rs.map fun e => (e.1, e.2.inject needed handles)

/-- Reads handles. -/
def Handles.ofJson? (v : Json) : Option Handles := Json.asMap? Json.asString? v

end FlowAnalysis
