import FlowAnalysis.Check.Bubbles
import FlowAnalysis.Check.Parameters
import FlowAnalysis.Check.Structure
import FlowAnalysis.Lint.Rule
import FlowAnalysis.Types.Schema

/-!
# The analysis of flows

All checks in their order, and what is extracted from a flow that passes them.

## Main definitions

* `Flow.validate` — the diagnostics of a flow.
* `Analyzer` — a registry, a configuration and the rules.
* `Analyzer.validate`, `Analyzer.extract` — the analysis of a text.
* `Extraction` — what is extracted.
-/

namespace FlowAnalysis

open Syntax

/-- The diagnostics of a flow: its structure, its bubbles, the parameters and the payload, and
last the style rules. -/
def Flow.validate (f : Flow) (registry : Registry) (config : Config) (rules : List Rule) :
    Verdict :=
  ⟨f.checkStructure config ++ f.checkCredentials ++ f.checkRegistered registry ++
    f.checkParameters registry ++ f.checkPayload ++ runRules rules f config⟩

/-- What an analysis needs besides the text. -/
structure Analyzer where
  registry : Registry
  config : Config
  /-- The rules of the host, which run after those that are always there. -/
  hostRules : List Rule := []

/-- What is extracted from a text. -/
structure Extraction where
  verdict : Verdict
  records : Records
  requirements : Requirements
  inputSchema : Option Json
  trigger : Option Trigger
  sourceHash : String

/-- What is extracted from a flow that is not valid: nothing. -/
def Extraction.invalid (verdict : Verdict) (sourceHash : String) : Extraction :=
  ⟨verdict, [], [], none, none, sourceHash⟩

namespace Analyzer

/-- The rules that an analysis runs. -/
def rules (a : Analyzer) : List Rule := Rule.builtin ++ a.hostRules

/-- The flow of a source. -/
def flow (a : Analyzer) (s : Source) : Flow := .of s a.registry a.config

/-- The diagnostics of a source. -/
def check (a : Analyzer) (s : Source) : Verdict :=
  (a.flow s).validate a.registry a.config a.rules

/-- The diagnostics of a text; one that does not follow the grammar has just one. -/
def validate (a : Analyzer) (text : String) : Verdict :=
  match Source.parse text with
  | .ok s => a.check s
  | .error e => ⟨[.ofSyntaxError e]⟩

/-- What is extracted from a source. -/
def extractFrom (a : Analyzer) (s : Source) (sourceHash : String) : Extraction :=
  let f := a.flow s
  let verdict := a.check s
  if verdict.valid then
    ⟨verdict, f.records a.registry a.config, f.requirements a.registry, f.inputSchema?,
      f.trigger?, sourceHash⟩
  else .invalid verdict sourceHash

/-- What is extracted from a text. -/
def extract (a : Analyzer) (text : String) : Extraction :=
  match Source.parse text with
  | .ok s => a.extractFrom s (Hash.digest text)
  | .error e => .invalid ⟨[.ofSyntaxError e]⟩ (Hash.digest text)

end Analyzer

end FlowAnalysis
