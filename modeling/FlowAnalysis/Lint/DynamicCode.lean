import FlowAnalysis.Flow.Basic

/-!
# Code from texts

A flow must not turn texts into code.

## Main definitions

* `Flow.dynamicCode?` — the function by which a node turns a text into code.
* `Flow.checkDynamicCode` — the rule.
-/

namespace FlowAnalysis.Flow

open Syntax

/-- What a node calls or constructs, and the functions among that which turn texts into code. -/
def evaluators (t : Tree) : Option Tree × List String :=
  if t.is .callExpression then (t.field? .function, ["eval", "Function"])
  else if t.is .newExpression then (t.field? .constructor, ["Function"])
  else (none, [])

/-- The function by which a node turns a text into code. -/
def dynamicCode? (f : Flow) (t : Tree) : Option String :=
  let (callee, names) := evaluators t
  callee.bind fun c =>
    if c.bare.is .identifier && names.contains (f.textOf c.bare) then some (f.textOf c.bare)
    else none

/-- Checks that no text is turned into code. -/
def checkDynamicCode (f : Flow) : List Diagnostic :=
  f.source.root.nodes.filterMap fun t =>
    (f.dynamicCode? t).map fun name => f.diagnosticAt t (.dynamicCode name)

end FlowAnalysis.Flow
