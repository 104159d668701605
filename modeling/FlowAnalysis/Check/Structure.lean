import FlowAnalysis.Flow.Basic

/-!
# The structure of a flow

Exactly one class extends the base class, it has an entry method that takes one payload, the entry
method itself throws nothing, and the other methods do not call one another.

## Main definitions

* `Flow.checkFlowClass`, `Flow.checkEntryMethod` — the class and its entry method.
* `Flow.checkThrows` — the throw statements of the entry method itself.
* `Flow.checkStepCalls` — calls between methods other than the entry method.
-/

namespace FlowAnalysis

open Syntax

namespace Flow

/-- Checks that exactly one class extends the base class. -/
def checkFlowClass (f : Flow) (config : Config) : List Diagnostic :=
  match f.flowClasses with
  | [] => [⟨.noFlowClass config.baseClass, none⟩]
  | [_] => []
  | _ :: second :: _ =>
    [f.diagnosticAt second.node (.severalFlowClasses config.baseClass f.flowClasses.length)]

/-- The base class of a class as it is written, with its type arguments. -/
def writtenBase (f : Flow) (config : Config) (c : FlowClass) : String :=
  config.baseClass ++ ((c.typeArguments.map f.textOf).getD "")

/-- Whether a parameter counts as one that a caller has to supply. -/
def isRequired (t : Tree) : Bool := t.isAny [.requiredParameter, .identifier]

/-- Checks that a class has an entry method that takes one payload. -/
def checkEntryMethod (f : Flow) (config : Config) (c : FlowClass) : List Diagnostic :=
  let base := f.writtenBase config c
  match c.method? config.entryMethod with
  | none =>
    [f.diagnosticAt ((c.node.field? .name).getD c.node)
      (.entryMissing c.name config.entryMethod base)]
  | some m =>
    if 1 < m.parameters.countP isRequired then
      [f.diagnosticAt m.node (.entryTakesSeveral c.name config.entryMethod base)]
    else []

/-- The throw statements of a body, those of nested functions left out. -/
def ownThrows (body : Tree) : List Tree :=
  (body.walkBelow fun t =>
    if t.isFunctionLike then .skip else if t.is .throwStatement then .keep else .enter).filter
      (·.is .throwStatement)

/-- Checks that the entry method itself throws nothing. -/
def checkThrows (f : Flow) (config : Config) (entry : Method) : List Diagnostic :=
  ((entry.body.map ownThrows).getD []).map fun t =>
    f.diagnosticAt t (.throwInEntry config.entryMethod)

/-- Whether a node is a function with a `this` of its own. -/
def rebindsThis (t : Tree) : Bool := t.isFunctionLike && !t.is .arrowFunction

/-- The name of the method that a call of a method of `this` names. -/
def calledOnThis? (f : Flow) (call : Tree) : Option String :=
  (call.field? .function).bind fun callee =>
    if callee.bare.is .memberExpression then
      (callee.bare.field? .object).bind fun object =>
        if object.bare.is .this then (callee.bare.field? .property).map f.textOf else none
    else none

/-- The calls of methods of `this` in a body, in reading order. -/
def stepCalls (f : Flow) (body : Tree) : List (String × Tree) :=
  ((body.walkBelow (Tree.except rebindsThis)).filter (·.is .callExpression)).filterMap fun t =>
    (f.calledOnThis? t).map (·, t)

/-- The first of all entries with the same key, in their order. -/
def firstPerKey {κ α : Type} [BEq κ] (entries : List (κ × α)) : List (κ × α) :=
  entries.foldl (fun acc e => if acc.any (·.1 == e.1) then acc else acc ++ [e]) []

/-- Checks that no method other than the entry method calls a method of the flow. -/
def checkStepCalls (f : Flow) (config : Config) (c : FlowClass) : List Diagnostic :=
  let instances := c.methods.filter (!·.isStatic)
  let callers := instances.filter (·.name ≠ config.entryMethod)
  let calls := callers.flatMap fun m =>
    ((m.body.map f.stepCalls).getD []).filterMap fun (callee, t) =>
      if instances.any (·.name = callee) then some ((m.name, callee), t) else none
  (firstPerKey calls).map fun ((caller, callee), t) =>
    f.diagnosticAt t (.stepCall caller callee config.entryMethod)

/-- Checks the structure of a flow. -/
def checkStructure (f : Flow) (config : Config) : List Diagnostic :=
  f.checkFlowClass config ++
    match f.flowClass? with
    | some c =>
      f.checkEntryMethod config c ++
        ((c.method? config.entryMethod).map (f.checkThrows config)).getD [] ++
        f.checkStepCalls config c
    | none => []

end Flow

end FlowAnalysis
