import FlowAnalysis.Credentials

/-!
# The bubbles of a flow

Every bubble is registered, and none is given credentials literally.

## Main definitions

* `Argument.isHardcoded` — whether a value is a literal with something in it.
* `Flow.checkCredentials`, `Flow.checkRegistered` — the checks.
-/

namespace FlowAnalysis

open Syntax

/-- Whether a value is a literal with something in it. -/
def Argument.isHardcoded : Argument → Bool
  | .reference | .computed | .null | .undefined => false
  | .object es => !es.isEmpty
  | .array items => !items.isEmpty
  | .string s => s ≠ ""
  | .number _ | .bool _ => true

namespace Flow

/-- The value of the credentials of a construction, and where it stands. -/
def credentialsOf? (f : Flow) (c : Construction) : Option (Argument × Tree) :=
  c.paramsObject?.bind fun params =>
    match (f.source.classify params).property? credentialsName with
    | some (.property _ _ value node) => some (value, node)
    | _ => none

/-- Checks that no bubble is given credentials literally. -/
def checkCredentials (f : Flow) : List Diagnostic :=
  f.constructions.filterMap fun c =>
    match f.credentialsOf? c with
    | some (value, node) =>
      if value.isHardcoded then some (f.diagnosticAt node (.literalCredentials c.className))
      else none
    | none => none

/-- Checks that every bubble is registered. -/
def checkRegistered (f : Flow) (registry : Registry) : List Diagnostic :=
  (f.constructions.filter fun c => !registry.contains c.className).map fun c =>
    f.diagnosticAt c.node (.unregistered c.className)

end Flow

end FlowAnalysis
