import FlowAnalysis.Flow.Basic

/-!
# The complexity of methods

A method has one path through it, and one more for each branch.

## Main definitions

* `Flow.complexity` — how many paths a body has.
* `Flow.checkComplexity` — the rule.
-/

namespace FlowAnalysis.Flow

open Syntax

/-- The kinds of the nodes that branch. -/
def branchKinds : List Kind :=
  [.ifStatement, .forStatement, .forInStatement, .whileStatement, .doStatement, .switchCase,
   .catchClause, .ternaryExpression]

/-- The operators that branch. -/
def branchOperators : List String := ["&&", "||", "??"]

/-- Whether a node branches. -/
def branches (t : Tree) : Bool :=
  t.isAny branchKinds ||
    t.is .binaryExpression && (t.field? .operator).any fun o => branchOperators.any o.isToken

/-- How many paths a body has. -/
def complexity (body : Tree) : Nat := 1 + body.nodes.countP branches

/-- Checks that no method has too many paths. -/
def checkComplexity (f : Flow) (config : Config) : List Diagnostic :=
  (f.flowClasses.flatMap (·.methods)).filterMap fun m =>
    m.body.bind fun body =>
      let score := complexity body
      if config.lint.maxComplexity < score then
        some (f.diagnosticAt m.node (.tooComplex m.name score config.lint.maxComplexity))
      else none

end FlowAnalysis.Flow
