import FlowAnalysis.CommandLine.Arguments
import FlowAnalysis.CommandLine.Files
import FlowAnalysis.Credentials

/-!
# Commands

What can be asked for on the command line.

## Main definitions

* `Command` — what is asked for.
* `Command.ofArguments` — the command that some arguments give.
* `Command.paths` — the paths that a command reads.
-/

namespace FlowAnalysis.CommandLine

/-- The files from which an analysis takes its registry and its configuration. -/
structure Inputs where
  registry : Option String
  config : Option String
  deriving DecidableEq, Repr

/-- What is asked for. -/
inductive Command
  /-- The diagnostics of flows and of directories of flows. -/
  | validate (inputs : Inputs) (json : Bool) (targets : List String)
  /-- What is extracted from a flow. -/
  | extract (inputs : Inputs) (flow : String)
  /-- The normal form of a flow. -/
  | normalize (inPlace : Bool) (flow : String)
  /-- The requirements of a flow, or its records with handles. -/
  | credentials (inputs : Inputs) (handles : Handles) (flow : String)
  deriving Repr

/-- The options that name the files of an analysis. -/
def inputOptions : List OptionForm :=
  [⟨"registry", .path, "--registry <REGISTRY>"⟩, ⟨"config", .path, "--config <CONFIG>"⟩]

/-- The forms of the commands, by name. -/
def forms : List (String × Form) :=
  [("validate", ⟨inputOptions ++ [⟨"json", .nothing, "--json"⟩], true, "<TARGETS>..."⟩),
   ("extract", ⟨inputOptions, false, "<FLOW>"⟩),
   ("normalize", ⟨[⟨"in-place", .nothing, "--in-place"⟩], false, "<FLOW>"⟩),
   ("credentials", ⟨inputOptions ++ [⟨"value", .pair, "--value <VALUES>"⟩], false, "<FLOW>"⟩)]

/-- The command of a name with the arguments that have been read for it. -/
def Command.ofProgress (name : String) (p : Progress) : Command :=
  let inputs : Inputs := ⟨(p.valuesOf "registry").head?, (p.valuesOf "config").head?⟩
  let flow := p.operands.headD ""
  match name with
  | "validate" => .validate inputs (p.has "json") p.operands
  | "extract" => .extract inputs flow
  | "normalize" => .normalize (p.has "in-place") flow
  | _ => .credentials inputs (Keyed.ofList ((p.valuesOf "value").filterMap pair?)) flow

/-- The command of a name and its arguments. -/
def Command.named (name : String) (arguments : List String) : Except UsageError Command :=
  match Keyed.get? forms name with
  | some f => (f.read arguments).map (ofProgress name)
  | none =>
    if name = "help" then
      match arguments.find? fun a => !(Keyed.get? forms a).isSome && a ≠ "help" with
      | some unknown => .error (.unknownCommand unknown)
      | none => .error .help
    else .error (.unknownCommand name)

/-- The command that some arguments give. -/
def Command.ofArguments : List String → Except UsageError Command
  | [] => .error .noCommand
  | a :: rest =>
    match a.toList with
    | ['-', '-'] =>
      match rest with
      | [] => .error .noCommand
      | b :: _ =>
        .error (if (Keyed.get? forms b).isSome then .unexpected b else .unknownCommand b)
    | '-' :: '-' :: _ | '-' :: _ :: _ =>
      match Progress.take ⟨[], false, ""⟩ {} a with
      | .error e => .error e
      | .ok _ => .error .noCommand
    | _ => named a rest

/-- The paths that a command reads. -/
def Command.paths : Command → List String
  | validate inputs _ targets => inputs.registry.toList ++ inputs.config.toList ++ targets
  | extract inputs flow => inputs.registry.toList ++ inputs.config.toList ++ [flow]
  | normalize _ flow => [flow]
  | credentials inputs _ flow => inputs.registry.toList ++ inputs.config.toList ++ [flow]

/-- What is said about the commands. -/
def overview : String :=
  "Validate, extract and normalize BubbleFlow sources\n\n" ++
  "Usage: bubble-flow <COMMAND>\n\n" ++
  "Commands:\n" ++
  "  validate     Validate flow files or directories of flows\n" ++
  "  extract      Print the extracted bubble parameters of a flow as JSON\n" ++
  "  normalize    Rewrite braceless control-flow bodies into blocks\n" ++
  "  credentials  Print credential requirements, or inject credential handles into " ++
  "extracted parameters\n" ++
  "  help         Print this message or the help of the given subcommand(s)\n\n" ++
  "Options:\n" ++
  "  -h, --help  Print help\n"

/-- What is said about arguments that give no command. -/
def UsageError.message : UsageError → String
  | noCommand | help => overview
  | unknownCommand name => "error: unrecognized subcommand '" ++ name ++ "'"
  | unexpected argument => "error: unexpected argument '" ++ argument ++ "' found"
  | valueMissing item => "error: a value is required for '" ++ item ++ "' but none was supplied"
  | valueUnwanted value item =>
    "error: unexpected value '" ++ value ++ "' for '" ++ item ++
      "' found; no more were expected"
  | repeated item => "error: the argument '" ++ item ++ "' cannot be used multiple times"
  | notPair value item =>
    "error: invalid value '" ++ value ++ "' for '" ++ item ++ "': expected KIND=HANDLE, got '" ++
      value ++ "'"
  | operandMissing item =>
    "error: the following required arguments were not provided:\n  " ++ item

end FlowAnalysis.CommandLine
