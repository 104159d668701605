import FlowAnalysis.Contract
import FlowAnalysis.Json.Reader

/-!
# The registry of bubbles

A registry says of each integration class what it is called, what parameters it takes, and what
kinds of credentials it needs.

## Main definitions

* `Definition` — what is known of one class.
* `Registry` — the definitions, each under its class name.
* `CredentialSpec.forOperation` — the kinds of credentials that an operation needs.
* `Registry.ofText?` — the registry of a text of JSON.
-/

namespace FlowAnalysis

/-- What a bubble is. -/
inductive BubbleKind
  | service
  | tool
  | workflow
  deriving DecidableEq, Repr, Inhabited

namespace BubbleKind

/-- The words for the kinds. -/
def words : List (String × BubbleKind) :=
  [("service", service), ("tool", tool), ("workflow", workflow)]

/-- The word for a kind. -/
def toWord : BubbleKind → String
  | service => "service"
  | tool => "tool"
  | workflow => "workflow"

/-- A kind as a value. -/
def toJson (k : BubbleKind) : Json := .string k.toWord

end BubbleKind

/-- The kinds of credentials that a bubble needs. -/
structure CredentialSpec where
  /-- The kinds that are needed unless the operation has kinds of its own. -/
  default : List String
  /-- The kinds that single operations need. -/
  operations : List (String × List String)
  deriving DecidableEq, Repr, Inhabited

namespace CredentialSpec

/-- No credentials at all. -/
def none : CredentialSpec := ⟨[], []⟩

/-- The kinds of credentials that an operation needs. -/
def forOperation (s : CredentialSpec) (operation : Option String) : List String :=
  ((operation.bind fun o => Keyed.get? s.operations o)).getD s.default

/-- Reads what credentials are needed. -/
def ofJson? (v : Json) : Option CredentialSpec := do
  let f ← v.fields? ["default", "operations"]
  return ⟨← f.withDefault "default" Json.asStrings? [],
    ← f.withDefault "operations" (Json.asMap? Json.asStrings?) []⟩

/-- What credentials are needed, as a value. -/
def toJson (s : CredentialSpec) : Json :=
  .object [("default", Json.strings s.default),
    ("operations", .object (s.operations.map fun e => (e.1, Json.strings e.2)))]

end CredentialSpec

/-- What is known of one class. -/
structure Definition where
  className : String
  bubbleName : String
  displayName : Option String
  kind : BubbleKind
  contract : Contract
  credentials : CredentialSpec
  deriving Repr, Inhabited

namespace Definition

/-- The name of the type of the parameters. -/
def paramsTypeName (d : Definition) : String :=
  match d.contract with
  | .object s => s.name.getD (d.className ++ "Params")
  | .union _ _ => d.className ++ "Params"

/-- Reads a definition, with `limit` levels of nesting left. -/
def ofJson? (limit : Nat) (v : Json) : Option Definition := do
  let f ← v.fields?
    ["class_name", "bubble_name", "display_name", "kind", "params", "credentials"]
  return ⟨← f.required "class_name" Json.asString?, ← f.required "bubble_name" Json.asString?,
    ← f.optional "display_name" Json.asString?,
    ← f.withDefault "kind" (Json.asWord? BubbleKind.words) .service,
    ← f.withDefault "params" (Contract.ofJson? (limit - 1)) .permissive,
    ← f.withDefault "credentials" CredentialSpec.ofJson? .none⟩

/-- A definition as a value. -/
def toJson (d : Definition) : Json :=
  .object ([("class_name", .string d.className), ("bubble_name", .string d.bubbleName)] ++
    Json.entry? "display_name" (d.displayName.map Json.string) ++
    [("kind", d.kind.toJson), ("params", d.contract.toJson),
      ("credentials", d.credentials.toJson)])

end Definition

/-- The definitions of all known classes, each under its class name. -/
structure Registry where
  entries : List (String × Definition)
  deriving Repr, Inhabited

namespace Registry

/-- The registry that knows no class. -/
def empty : Registry := ⟨[]⟩

/-- The registry with one more definition, which replaces an older one of the same class. -/
def insert (r : Registry) (d : Definition) : Registry := ⟨Keyed.put d.className d r.entries⟩

/-- The registry of some definitions, the last of each class counting. -/
def ofList (ds : List Definition) : Registry := ds.foldl insert empty

/-- The definition of a class. -/
def resolve? (r : Registry) (className : String) : Option Definition :=
  Keyed.get? r.entries className

/-- Whether a class is known. -/
def contains (r : Registry) (className : String) : Bool := (r.resolve? className).isSome

/-- How many classes are known. -/
def size (r : Registry) : Nat := r.entries.length

/-- Reads a registry. -/
def ofJson? (v : Json) : Option Registry := do
  let f ← v.fields? ["bubbles"]
  ofList <$> f.withDefault "bubbles" (Json.asList? (Definition.ofJson? (Json.maxDepth - 2))) []

/-- The registry of a text. -/
def ofText? (text : String) : Option Registry := (Json.ofText? text).bind ofJson?

@[simp] theorem resolve?_insert (r : Registry) (d : Definition) :
    (r.insert d).resolve? d.className = some d := by
  simp [insert, resolve?]

end Registry

end FlowAnalysis
