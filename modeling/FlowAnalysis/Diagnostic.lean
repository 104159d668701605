import FlowAnalysis.Json.Value
import FlowAnalysis.Syntax.Source

/-!
# Diagnostics

What the analysis finds fault with.  A finding is kept as its cause; the code under which it is
known and the words in which it is reported are functions of the cause.

## Main definitions

* `Finding` — what is wrong.
* `Finding.code`, `Finding.message` — how it is reported.
* `Diagnostic` — a finding and its place.
* `Verdict` — all diagnostics of a flow.
-/

namespace FlowAnalysis

/-- What is wrong with a flow. -/
inductive Finding
  | syntaxError (error : Syntax.SyntaxError)
  | noFlowClass (base : String)
  | severalFlowClasses (base : String) (count : Nat)
  | entryMissing (className entry base : String)
  | entryTakesSeveral (className entry base : String)
  | throwInEntry (entry : String)
  | stepCall (caller callee entry : String)
  | literalCredentials (className : String)
  | unregistered (className : String)
  | unknownProperty (key typeName : String)
  | missingProperty (property className typeName : String)
  | typeMismatch (actual expected path className : String)
  | payloadProperty (property typeName : String)
  | wholeEnvironment
  | tooComplex (method : String) (score max : Nat)
  | dynamicCode (name : String)
  | hardcodedSecret (provider : String)
  | scheduleMissing (event field : String)
  | scheduleFieldCount (schedule : String) (count : Nat)
  | scheduleField (schedule field : String)
  /-- What a rule of the host has found, in words of its own and under a code of its own. -/
  | host (code message : String)
  deriving DecidableEq, Repr

namespace Finding

/-- The code under which a finding is known. -/
def code : Finding → String
  | syntaxError _ => "syntax"
  | noFlowClass _ | severalFlowClasses _ _ => "flow-class"
  | entryMissing _ _ _ | entryTakesSeveral _ _ _ => "entry-method"
  | throwInEntry _ => "throw-in-entry"
  | stepCall _ _ _ => "step-call-graph"
  | literalCredentials _ => "literal-credentials"
  | unregistered _ => "unregistered-bubble"
  | unknownProperty _ _ => "unknown-property"
  | missingProperty _ _ _ => "missing-property"
  | typeMismatch _ _ _ _ => "type-mismatch"
  | payloadProperty _ _ => "payload-property"
  | wholeEnvironment => "no-process-env-bulk"
  | tooComplex _ _ _ => "max-complexity"
  | dynamicCode _ => "no-dynamic-code"
  | hardcodedSecret _ => "no-hardcoded-secret"
  | scheduleMissing _ _ | scheduleFieldCount _ _ | scheduleField _ _ => "cron-schedule"
  | host code _ => code

/-- The words in which a finding is reported. -/
def message : Finding → String
  | syntaxError e => e.message
  | noFlowClass base => "Flow code must contain a class that extends " ++ base
  | severalFlowClasses base count =>
    "Flow code must contain exactly one class that extends " ++ base ++ ", found " ++
      toString count
  | entryMissing className entry base =>
    "Non-abstract class '" ++ className ++
      "' does not implement inherited abstract member '" ++ entry ++ "' from class '" ++ base ++
      "'"
  | entryTakesSeveral className entry base =>
    "Property '" ++ entry ++ "' in type '" ++ className ++
      "' is not assignable to the same property in base type '" ++ base ++ "'. '" ++ entry ++
      "' must accept a single payload parameter."
  | throwInEntry entry =>
    "throw statements are not allowed directly in " ++ entry ++
      " method. Move error handling into another step."
  | stepCall caller callee entry =>
    "'" ++ caller ++ "' calls '" ++ callee ++ "', but '" ++ callee ++
      "' cannot be called from another method. Only '" ++ entry ++ "' may invoke step methods."
  | literalCredentials className =>
    "'" ++ className ++ "' receives a literal credentials value. " ++
      "Hardcoded credentials are not allowed; they are injected at execution time."
  | unregistered className =>
    "Bubble '" ++ className ++
      "' is not registered. Only bubbles from the registry can be used in a flow."
  | unknownProperty key typeName =>
    "Object literal may only specify known properties, and '" ++ key ++
      "' does not exist in type '" ++ typeName ++ "'."
  | missingProperty property className typeName =>
    "Property '" ++ property ++ "' is missing in the parameters of '" ++ className ++
      "' but required in type '" ++ typeName ++ "'."
  | typeMismatch actual expected path className =>
    "Type '" ++ actual ++ "' is not assignable to type '" ++ expected ++ "' for parameter '" ++
      path ++ "' of '" ++ className ++ "'."
  | payloadProperty property typeName =>
    "Property '" ++ property ++ "' does not exist on type '" ++ typeName ++ "'."
  | wholeEnvironment =>
    "process.env cannot be used as a whole value. " ++
      "Read individual variables such as process.env.NAME instead."
  | tooComplex method score max =>
    "Method '" ++ method ++ "' has a cyclomatic complexity of " ++ toString score ++
      ", which exceeds the maximum of " ++ toString max ++ ". Split it into smaller steps."
  | dynamicCode name => "Dynamic code evaluation via '" ++ name ++ "' is not allowed in flows."
  | hardcodedSecret provider =>
    "String literal looks like a hardcoded " ++ provider ++
      ". Keep secrets out of flow source and let the platform inject them."
  | scheduleMissing event field =>
    "Flows triggered by '" ++ event ++ "' must declare a " ++ field ++ " field."
  | scheduleFieldCount schedule count =>
    "Cron schedule '" ++ schedule ++
      "' must have 5 fields (minute hour day-of-month month day-of-week), found " ++
      toString count ++ "."
  | scheduleField schedule field =>
    "Cron schedule '" ++ schedule ++ "' has an invalid field '" ++ field ++ "'."
  | host _ message => message

end Finding

/-- A finding and its place. -/
structure Diagnostic where
  finding : Finding
  location : Option Location
  deriving DecidableEq, Repr

namespace Diagnostic

/-- The code of a diagnostic. -/
def code (d : Diagnostic) : String := d.finding.code

/-- The message of a diagnostic. -/
def message (d : Diagnostic) : String := d.finding.message

/-- The diagnostic of a text that does not follow the grammar. -/
def ofSyntaxError (e : Syntax.SyntaxError) : Diagnostic := ⟨.syntaxError e, some e.location⟩

end Diagnostic

/-- The diagnostics of a flow; without any the flow is valid. -/
structure Verdict where
  diagnostics : List Diagnostic
  deriving DecidableEq, Repr

/-- Whether a flow is valid. -/
def Verdict.valid (v : Verdict) : Bool := v.diagnostics.isEmpty

end FlowAnalysis
