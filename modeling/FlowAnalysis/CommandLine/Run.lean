import FlowAnalysis.CommandLine.Command
import FlowAnalysis.Normalize
import FlowAnalysis.Report

/-!
# Carrying out commands

What a command prints and writes, given what stands at the paths that it names.

## Main definitions

* `Outcome` — the exit code, what is printed, and what is written.
* `Failure` — why a command ends without success.
* `Command.run` — carries out a command.
* `run` — carries out the command that some arguments give.
-/

namespace FlowAnalysis.CommandLine

open Syntax

/-- What is found at a path. -/
abbrev Lookup := String → Except LookupFailure FileTree

/-- The file in which reading failed, by what it is read for. -/
inductive FileRole
  | registry
  | config
  | flow
  deriving DecidableEq, Repr

/-- Why a command ends without success. -/
inductive Failure
  | unreadable (role : FileRole) (path : String) (cause : FileFailure)
  /-- A registry that is not one. -/
  | notRegistry (path : String)
  /-- A configuration that is not one. -/
  | notConfig (path : String)
  | noTarget (path : String)
  /-- A directory that cannot be opened. -/
  | unopened (path : String) (cause : FileFailure)
  /-- A directory with an entry that cannot be read. -/
  | unlisted (path : String) (cause : FileFailure)
  | unwritable (path : String) (cause : FileFailure)
  | syntaxError (path : String) (error : SyntaxError)
  /-- Some of the validated flows are not valid. -/
  | notValid (count : Nat)
  /-- The flow from which something is extracted is not valid. -/
  | notExtracted (path : String) (count : Nat)
  /-- The flow whose records are to get handles is not valid. -/
  | notInjected (path : String) (messages : List String)
  deriving DecidableEq, Repr

namespace Failure

/-- What is said about a failure. -/
def message : Failure → String
  | unreadable .registry path _ => "unable to read bubble registry at " ++ path
  | unreadable .config path _ => "unable to read analyzer config at " ++ path
  | unreadable .flow path _ => "failed to read flow " ++ path
  | notRegistry path =>
    "unsupported registry format in " ++ path ++
      ": expected JSON (enable \x60toml\x60 feature for TOML support)"
  | notConfig path => "unsupported config format in " ++ path ++ ": expected JSON"
  | noTarget path => "no such flow file or directory: " ++ path
  | unopened path _ => "failed to read directory " ++ path
  | unlisted path _ => "failed to read directory entry in " ++ path
  | unwritable path _ => "failed to write " ++ path
  | syntaxError path _ => "failed to analyse " ++ path
  | notValid count => toString count ++ " flow(s) failed validation"
  | notExtracted path count =>
    path ++ " failed validation with " ++ toString count ++ " error(s)"
  | notInjected path messages => path ++ " failed validation: " ++ "; ".intercalate messages

/-- What is said about the cause of a failure. -/
def cause? : Failure → Option String
  | unreadable _ _ cause | unopened _ cause | unlisted _ cause | unwritable _ cause =>
    some cause.message
  | syntaxError _ error => some error.message
  | _ => none

/-- All that is said about a failure. -/
def report (f : Failure) : String :=
  "Error: " ++ f.message ++ (match f.cause? with
    | some cause => "\n\nCaused by:\n    " ++ cause
    | none => "") ++ "\n"

/-- All that is said about a failure, on one line. -/
def oneLine (f : Failure) : String :=
  f.message ++ (match f.cause? with
    | some cause => ": " ++ cause
    | none => "")

end Failure

/-- What has been printed and written. -/
structure Printed where
  stdout : String := ""
  stderr : String := ""
  /-- The text that a file gets. -/
  written : Option (String × String) := none

/-- What a command prints and writes, and how it ends. -/
structure Outcome where
  exitCode : Nat
  stdout : String
  stderr : String
  written : Option (String × String)
  deriving DecidableEq, Repr

/-- The outcome of a command that ends with success. -/
def Printed.succeed (p : Printed) : Outcome := ⟨0, p.stdout, p.stderr, p.written⟩

/-- The outcome of a command that ends with a failure. -/
def Printed.fail (p : Printed) (f : Failure) : Outcome :=
  ⟨1, p.stdout, p.stderr ++ f.report, p.written⟩

/-- The outcome of a command that fails before it has printed anything. -/
def Outcome.ofExcept : Except Failure Outcome → Outcome
  | .ok o => o
  | .error f => ({} : Printed).fail f

/-! ### What is read -/

/-- The text of the file at a path. -/
def readText (look : Lookup) (role : FileRole) (path : String) : Except Failure String :=
  match (look path).mapError LookupFailure.whenRead >>= FileTree.text with
  | .ok text => .ok text
  | .error cause => .error (.unreadable role path cause)

/-- The registry of a command. -/
def Inputs.readRegistry (i : Inputs) (look : Lookup) : Except Failure Registry :=
  match i.registry with
  | none => .ok .empty
  | some path => do
    match Registry.ofText? (← readText look .registry path) with
    | some r => .ok r
    | none => .error (.notRegistry path)

/-- The configuration of a command. -/
def Inputs.readConfig (i : Inputs) (look : Lookup) : Except Failure Config :=
  match i.config with
  | none => .ok .standard
  | some path => do
    match Config.ofText? (← readText look .config path) with
    | some c => .ok c
    | none => .error (.notConfig path)

/-- The analyzer of a command. -/
def Inputs.readAnalyzer (i : Inputs) (look : Lookup) : Except Failure Analyzer := do
  return ⟨← i.readRegistry look, ← i.readConfig look, []⟩

/-- A flow by its path, with its text or with why it cannot be read. -/
abbrev FlowFile := String × Except FileFailure String

/-- The failure that an obstacle at a path is.  What is not a directory is a missing flow. -/
def obstacleFailure (path : String) : FileObstacle → Failure
  | .unopened cause => .unopened path cause
  | .unlisted cause => .unlisted path cause
  | .unknown _ => .noTarget path

/-- The failure that it is if nothing is found at the path of a target. -/
def lookupFailure (path : String) : LookupFailure → Failure
  | .missing _ => .noTarget path
  | .blocked p o => obstacleFailure p o

/-- The flows of a target. -/
def targetFlows (look : Lookup) (path : String) : Except Failure (List FlowFile) :=
  match look path with
  | .ok e => .ok (e.flowFiles path)
  | .error f => .error (lookupFailure path f)

/-- The flows of some targets. -/
def collectFlows (look : Lookup) (targets : List String) : Except Failure (List FlowFile) := do
  return (← targets.mapM (targetFlows look)).flatten

/-! ### Validation -/

/-- What is said about a diagnostic of a flow. -/
def diagnosticLine (path : String) (d : Diagnostic) : String :=
  "ERR " ++ path ++ (match d.location with
    | some l => ":" ++ toString l.line ++ ":" ++ toString l.column
    | none => "") ++ ": " ++ d.message ++ "\n"

/-- Adds a line. -/
def Printed.addLine (p : Printed) (line : String) : Printed :=
  { p with stdout := p.stdout ++ line ++ "\n" }

/-- Adds what is said about a verdict. -/
def Printed.addVerdict (p : Printed) (path : String) (v : Verdict) : Printed :=
  if v.valid then p.addLine ("OK  " ++ path)
  else { p with stderr := p.stderr ++ String.join (v.diagnostics.map (diagnosticLine path)) }

/-- How validation ends, given how many of the flows have failed. -/
def Printed.conclude (p : Printed) (json : Bool) (failures : Nat) : Outcome :=
  if failures = 0 then (if json then p else p.addLine "All flows valid").succeed
  else p.fail (.notValid failures)

/-- Validates flows one after the other, where some have failed before and something has been
printed.  About each flow a line or a text is printed; a flow that cannot be read has failed if
lines are printed, and is the end of validation if texts are. -/
def validateFrom (a : Analyzer) (json : Bool) (failures : Nat) (p : Printed) :
    List FlowFile → Outcome
  | [] => p.conclude json failures
  | (path, .error cause) :: rest =>
    let f := Failure.unreadable .flow path cause
    if json then
      validateFrom a json (failures + 1) (p.addLine (failureLine f.oneLine (some path))) rest
    else p.fail f
  | (path, .ok text) :: rest =>
    let v := a.validate text
    let q := if json then p.addLine (v.line (some path) (some (Hash.digest text)))
      else p.addVerdict path v
    validateFrom a json (if v.valid then failures else failures + 1) q rest

/-- Validates flows. -/
def validateFlows (a : Analyzer) (json : Bool) (flows : List FlowFile) : Outcome :=
  validateFrom a json 0 {} flows

/-! ### The other commands -/

/-- A value, printed over several lines. -/
def printedValue (v : Json) : Printed := { stdout := v.pretty ++ "\n" }

/-- Prints what is extracted from a flow. -/
def extractFlow (a : Analyzer) (path text : String) : Outcome :=
  let e := a.extract text
  let p := printedValue e.toJson
  if e.verdict.valid then p.succeed
  else p.fail (.notExtracted path e.verdict.diagnostics.length)

/-- Prints or writes the normal form of a flow. -/
def normalizeFlow (inPlace : Bool) (path text : String) : Outcome :=
  let normal := normalize text
  if inPlace then
    ({ written := if normal = text then none else some (path, normal) } : Printed).succeed
  else ({ stdout := normal } : Printed).succeed

/-- Prints what credentials a flow needs. -/
def printRequirements (a : Analyzer) (path text : String) : Outcome :=
  match Source.parse text with
  | .ok s => (printedValue ((a.flow s).requirements a.registry).toJson).succeed
  | .error e => ({} : Printed).fail (.syntaxError path e)

/-- Prints the records of a flow with handles. -/
def printInjected (a : Analyzer) (handles : Handles) (path text : String) : Outcome :=
  let e := a.extract text
  if e.verdict.valid then
    (printedValue (e.records.inject e.requirements handles).toJson).succeed
  else ({} : Printed).fail (.notInjected path (e.verdict.diagnostics.map (·.message)))

/-- Carries out a command. -/
def Command.run (look : Lookup) : Command → Outcome
  | validate inputs json targets => .ofExcept do
    let a ← inputs.readAnalyzer look
    return validateFlows a json (← collectFlows look targets)
  | extract inputs flow => .ofExcept do
    let a ← inputs.readAnalyzer look
    return extractFlow a flow (← readText look .flow flow)
  | normalize inPlace flow => .ofExcept do
    return normalizeFlow inPlace flow (← readText look .flow flow)
  | credentials inputs handles flow => .ofExcept do
    let a ← inputs.readAnalyzer look
    let text ← readText look .flow flow
    return if handles.isEmpty then printRequirements a flow text
      else printInjected a handles flow text

/-- The outcome of arguments that give no command. -/
def UsageError.outcome : UsageError → Outcome
  | help => ⟨0, overview, "", none⟩
  | noCommand => ⟨2, "", overview, none⟩
  | e => ⟨2, "", e.message ++ "\n\nFor more information, try '--help'.\n", none⟩

/-- Carries out the command that some arguments give. -/
def run (look : Lookup) (arguments : List String) : Outcome :=
  match Command.ofArguments arguments with
  | .ok c => c.run look
  | .error e => e.outcome

end FlowAnalysis.CommandLine
