import FlowAnalysis.Analysis
import FlowAnalysis.Normalize

/-!
# Sessions

A session holds one flow under work together with what has been loaded and found for it, so that
what one step finds can be used by a later one.

## Main definitions

* `Session` — a text, a registry, a configuration, and the records and requirements found last.
* `Session.extract`, `Session.findRecords`, `Session.findRequirements` — steps that find something.
* `Session.inject` — puts handles of credentials into the records found last.
-/

namespace FlowAnalysis

/-- One flow under work, with what has been loaded and found for it. -/
structure Session where
  source : String := ""
  registry : Registry := .empty
  config : Config := .standard
  /-- The records found last. -/
  records : Records := []
  /-- The requirements found last. -/
  requirements : Requirements := []

namespace Session

/-- A session in which nothing has been loaded. -/
def fresh : Session := {}

/-- The analyzer of a session, with rules of the host. -/
def analyzer (s : Session) (hostRules : List Rule) : Analyzer := ⟨s.registry, s.config, hostRules⟩

/-- The flow of a session, unless its text does not follow the grammar. -/
def flow (s : Session) : Except Syntax.SyntaxError Flow :=
  (Syntax.Source.parse s.source).map (s.analyzer []).flow

/-- Takes another text. -/
def withSource (s : Session) (text : String) : Session := { s with source := text }

/-- Takes another registry. -/
def withRegistry (s : Session) (r : Registry) : Session := { s with registry := r }

/-- Takes another configuration. -/
def withConfig (s : Session) (c : Config) : Session := { s with config := c }

/-- Adds a definition to the registry. -/
def define (s : Session) (d : Definition) : Session := s.withRegistry (s.registry.insert d)

/-- Brings the text into normal form. -/
def normalize (s : Session) : Session := s.withSource (FlowAnalysis.normalize s.source)

/-- Extracts everything, and keeps the records and the requirements. -/
def extract (s : Session) (hostRules : List Rule) : Extraction × Session :=
  let e := (s.analyzer hostRules).extract s.source
  (e, { s with records := e.records, requirements := e.requirements })

/-- Finds the records of the flow, whether it is valid or not. -/
def findRecords (s : Session) : Except Syntax.SyntaxError Session :=
  s.flow.map fun f => { s with records := f.records s.registry s.config }

/-- Finds the requirements of the flow, whether it is valid or not. -/
def findRequirements (s : Session) : Except Syntax.SyntaxError Session :=
  s.flow.map fun f => { s with requirements := f.requirements s.registry }

/-- Puts handles of credentials into the records. -/
def inject (s : Session) (handles : Handles) : Session :=
  { s with records := s.records.inject s.requirements handles }

@[simp] theorem source_withSource (s : Session) (text : String) :
    (s.withSource text).source = text := rfl

@[simp] theorem registry_withRegistry (s : Session) (r : Registry) :
    (s.withRegistry r).registry = r := rfl

@[simp] theorem requirements_inject (s : Session) (handles : Handles) :
    (s.inject handles).requirements = s.requirements := rfl

end Session

end FlowAnalysis
