/-!
# Command line arguments

How a list of arguments is read according to a form: which options there are, which of them take
a value, and what the arguments that are not options stand for.

An option is given by its full name.  Its value follows behind `=` or as the next argument; after
`--` no argument is an option any more.  A value is checked when the next thing has been
recognised, so an argument that fits nowhere is reported rather than the value in front of it.

## Main definitions

* `Form` — the options and the operands of a command.
* `UsageError` — what is wrong with some arguments.
* `Form.read` — the settings and the operands that some arguments give.
-/

namespace FlowAnalysis.CommandLine

/-- What is wrong with some arguments. -/
inductive UsageError
  /-- No command is named. -/
  | noCommand
  /-- An explanation is asked for. -/
  | help
  | unknownCommand (name : String)
  | unexpected (argument : String)
  | valueMissing (item : String)
  | valueUnwanted (value item : String)
  | repeated (item : String)
  /-- A value that is not a kind and a handle. -/
  | notPair (value item : String)
  | operandMissing (item : String)
  deriving DecidableEq, Repr

/-- What an option takes. -/
inductive Takes
  | nothing
  /-- A path; the option is given once at most. -/
  | path
  /-- A kind and a handle with `=` between them; the option may be repeated. -/
  | pair
  deriving DecidableEq, Repr

/-- An option of a command. -/
structure OptionForm where
  name : String
  takes : Takes
  /-- How the option is shown to the user. -/
  shown : String
  deriving DecidableEq, Repr

/-- The options and the operands of a command. -/
structure Form where
  options : List OptionForm
  /-- Whether there may be more than one operand; there is always one at least. -/
  manyOperands : Bool
  /-- How the operands are shown to the user. -/
  operandShown : String
  deriving Repr

/-- What has been recognised but not been checked. -/
inductive Waiting
  | nothing
  /-- An option whose value is still to come. -/
  | valueOf (o : OptionForm)
  | setting (o : OptionForm) (value : String)
  | operands (values : List String)
  deriving Repr

/-- How far the arguments have been read. -/
structure Progress where
  /-- The options that have been given, in their order, each with its value. -/
  settings : List (String × String) := []
  operands : List String := []
  waiting : Waiting := .nothing
  /-- Whether no argument is an option any more. -/
  literal : Bool := false
  deriving Repr

/-- A text split at its first `=`, if it has one. -/
def splitPair? (text : String) : Option (String × String) :=
  let before := text.toList.takeWhile (· ≠ '=')
  match text.toList.drop before.length with
  | [] => none
  | _ :: behind => some (String.ofList before, String.ofList behind)

/-- A kind and a handle with `=` between them; the kind is not empty. -/
def pair? (text : String) : Option (String × String) :=
  (splitPair? text).filter fun p => p.1 ≠ ""

/-- Whether a text may be the value of an option. -/
def checkValue (o : OptionForm) (value : String) : Except UsageError Unit :=
  match o.takes with
  | .nothing => .ok ()
  | .path => if value = "" then .error (.valueMissing o.shown) else .ok ()
  | .pair => if (pair? value).isSome then .ok () else .error (.notPair value o.shown)

namespace Progress

/-- Whether an option has been given. -/
def has (p : Progress) (name : String) : Bool := p.settings.any (·.1 = name)

/-- Takes an option with its value, which is checked. -/
def set (p : Progress) (o : OptionForm) (value : String) : Except UsageError Progress := do
  if o.takes ≠ .pair ∧ p.has o.name then throw (.repeated o.shown)
  checkValue o value
  return { p with settings := p.settings ++ [(o.name, value)], waiting := .nothing }

/-- Checks what is waiting. -/
def settle (f : Form) (p : Progress) : Except UsageError Progress :=
  match p.waiting with
  | .nothing => .ok p
  | .valueOf o => .error (.valueMissing o.shown)
  | .setting o value => p.set o value
  | .operands values =>
    if values.contains "" then .error (.valueMissing f.operandShown)
    else .ok { p with operands := p.operands ++ values, waiting := .nothing }

/-- Takes an argument that is not an option. -/
def operand (f : Form) (p : Progress) (a : String) : Except UsageError Progress := do
  match p.waiting with
  | .operands values =>
    if f.manyOperands then return { p with waiting := .operands (values ++ [a]) }
    else throw (.unexpected a)
  | _ =>
    if !f.manyOperands && !p.operands.isEmpty then throw (.unexpected a)
    return { ← p.settle f with waiting := .operands [a] }

/-- Takes an option by its name, perhaps with a value behind `=`. -/
def named (f : Form) (p : Progress) (name : String) (value : Option String) :
    Except UsageError Progress := do
  let known := if name = "help" then some ⟨name, .nothing, "--help"⟩
    else f.options.find? (·.name = name)
  match known with
  | none => throw (.unexpected ("--" ++ name))
  | some o =>
    match o.takes, value with
    | .nothing, some v => throw (.valueUnwanted v o.shown)
    | .nothing, none =>
      let q ← p.settle f
      if name = "help" then throw .help
      q.set o ""
    | _, some v => (← p.settle f).set o v
    | _, none => return { ← p.settle f with waiting := .valueOf o }

/-- Takes an argument that begins with one dash. -/
def short (f : Form) (p : Progress) (c : Char) : Except UsageError Progress := do
  if c = 'h' then
    let _ ← p.settle f
    throw .help
  else throw (.unexpected (String.ofList ['-', c]))

/-- Takes one argument. -/
def take (f : Form) (p : Progress) (a : String) : Except UsageError Progress :=
  if p.literal then p.operand f a
  else
    match a.toList with
    | ['-', '-'] => .ok { p with literal := true }
    | '-' :: '-' :: rest =>
      match splitPair? (String.ofList rest) with
      | some (name, value) => p.named f name (some value)
      | none => p.named f (String.ofList rest) none
    | '-' :: c :: _ => p.short f c
    | _ =>
      match p.waiting with
      | .valueOf o => .ok { p with waiting := .setting o a }
      | _ => p.operand f a

/-- The values that an option has been given. -/
def valuesOf (p : Progress) (name : String) : List String :=
  (p.settings.filter (·.1 = name)).map (·.2)

end Progress

/-- Reads the arguments of a command. -/
def Form.read (f : Form) (arguments : List String) : Except UsageError Progress := do
  let p ← (← arguments.foldlM (Progress.take f) {}).settle f
  if p.operands = [] then throw (.operandMissing f.operandShown)
  return p

end FlowAnalysis.CommandLine
