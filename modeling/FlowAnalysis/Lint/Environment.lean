import FlowAnalysis.Flow.Basic

/-!
# Reads of the environment

The variables of the environment may be read one at a time, but the environment must not be handed
on as a whole.

## Main definitions

* `Flow.isEnvironment` — an expression that is the whole environment.
* `Flow.checkEnvironment` — the rule.
-/

namespace FlowAnalysis.Flow

open Syntax

/-- Whether an expression is the whole environment, `process.env`. -/
def isEnvironment (f : Flow) (t : Tree) : Bool :=
  if t.is .memberExpression then
    match t.field? .object, t.field? .property with
    | some object, some property =>
      object.bare.is .identifier && f.textOf object.bare = "process" && f.textOf property = "env"
    | _, _ => false
  else false

/-- Whether a pattern reads single variables: it is an object pattern without a rest. -/
def readsSingly (t : Tree) : Bool :=
  t.is .objectPattern && t.named.all fun e => !e.is .restPattern

/-- Whether a child is used only to read single variables from it; a wrapper is used as what is
inside it. -/
def usedSingly (parent : Tree) (outer : Bool) (child : Tree) : Bool :=
  if parent.isAny [.parenthesizedExpression, .asExpression, .nonNullExpression] then outer
  else if parent.isAny [.memberExpression, .subscriptExpression] then child.role = some .object
  else if parent.is .variableDeclarator then
    child.role = some .value && (parent.field? .name).any readsSingly
  else false

/-- Checks that the environment is read one variable at a time. -/
def checkEnvironment (f : Flow) : List Diagnostic :=
  let isWhole := fun (single : Bool) (t : Tree) => f.isEnvironment t && !single
  let visit := fun single t => if isWhole single t then Visit.keep else .enter
  ((f.source.root.walkWith usedSingly visit false).filter fun (t, single) =>
    isWhole single t).map fun (t, _) => f.diagnosticAt t .wholeEnvironment

end FlowAnalysis.Flow
