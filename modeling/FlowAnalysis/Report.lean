import FlowAnalysis.Analysis
import FlowAnalysis.Json.Writer

/-!
# Reports

How verdicts and extractions are written as JSON: in full, and on one line per text.

## Main definitions

* `Verdict.toJson`, `Extraction.toJson` — full reports.
* `Verdict.line` — the report of one text on one line.
* `failureLine` — the same for a text that could not be read.
-/

namespace FlowAnalysis

/-- A diagnostic as a value. -/
def Diagnostic.toJson (d : Diagnostic) : Json :=
  .object ([("code", .string d.code), ("message", .string d.message)] ++
    Json.entry? "location" (d.location.map Location.toJson))

/-- The entries of a report on a verdict. -/
def Verdict.toEntries (v : Verdict) : List (String × Json) :=
  [("valid", .bool v.valid), ("errors", .array (v.diagnostics.map Diagnostic.toJson))]

/-- A verdict as a value. -/
def Verdict.toJson (v : Verdict) : Json := .object v.toEntries

/-- An extraction as a value. -/
def Extraction.toJson (e : Extraction) : Json :=
  .object (e.verdict.toEntries ++
    [("bubble_parameters", e.records.toJson),
      ("required_credentials", e.requirements.toJson)] ++
    Json.entry? "input_schema" e.inputSchema ++
    Json.entry? "trigger" (e.trigger.map Trigger.toJson) ++
    [("source_hash", .string e.sourceHash)])

/-- The path of a text, as an entry of a report. -/
def pathEntry (path : Option String) : List (String × Json) :=
  Json.entry? "source_path" (path.map Json.string)

/-- A diagnostic in the report of one text. -/
def Diagnostic.toLineJson (path : Option String) (d : Diagnostic) : Json :=
  .object ([("code", .string d.code), ("message", .string d.message)] ++ pathEntry path ++
    Json.entry? "line" (d.location.map (Json.nat ·.line)) ++
    Json.entry? "col" (d.location.map (Json.nat ·.column)))

/-- The entries of the report of one text, from its diagnostics. -/
def reportEntries (ok : Bool) (path hash : Option String) (errors : List Json) :
    List (String × Json) :=
  [("ok", .bool ok)] ++ pathEntry path ++ Json.entry? "hash_blake3" (hash.map Json.string) ++
    (if errors.isEmpty then [] else [("errors", .array errors)])

/-- The report of one text, from its diagnostics. -/
def reportLine (ok : Bool) (path hash : Option String) (errors : List Json) : String :=
  (Json.object (reportEntries ok path hash errors)).compact

/-- The report of one text. -/
def Verdict.line (v : Verdict) (path hash : Option String) : String :=
  reportLine v.valid path hash (v.diagnostics.map (Diagnostic.toLineJson path))

/-- The report of a text that could not be read. -/
def failureLine (message : String) (path : Option String) : String :=
  reportLine false path none
    [.object ([("code", .string "io"), ("message", .string message)] ++ pathEntry path)]

end FlowAnalysis
