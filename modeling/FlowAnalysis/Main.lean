import FlowAnalysis.CommandLine.Run

/-!
# The program

Reads from the disk what a command names, and prints and writes what comes of it.
-/

open FlowAnalysis CommandLine

namespace FlowAnalysis.CommandLine

/-- What a failure of the operating system means. -/
def FileFailure.ofError : IO.Error → FileFailure
  | .noFileOrDirectory _ _ _ => .notFound
  | .permissionDenied _ _ _ => .notAllowed
  | .inappropriateType _ _ _ => .notDirectory
  | .illegalOperation _ _ => .notText
  | _ => .notFound

/-- The text of a file on the disk. -/
def loadText (path : String) : IO (Except FileFailure String) := do
  try
    match String.fromUTF8? (← IO.FS.readBinFile path) with
    | some text => return .ok text
    | none => return .error .notText
  catch e => return .error (FileFailure.ofError e)

/-- What stands at a path on the disk, directories with all that is below them.  What is neither a
file nor a directory is only read if it has been named itself. -/
partial def load (path : String) (named : Bool) : IO FileTree := do
  let place : IO.FS.DirEntry := ⟨".", path⟩
  let kind : Except FileFailure IO.FS.FileType ←
    try pure (.ok (← place.path.metadata).type) catch e => pure (.error (FileFailure.ofError e))
  match kind with
  | .error cause => return .closed (.unknown cause)
  | .ok .dir =>
    try
      let names := (← place.path.readDir).toList.map (·.fileName)
      return .directory (← names.mapM fun name => do
        return (name, ← load (childPath path name) false))
    catch e => return .closed (.unopened (FileFailure.ofError e))
  | .ok kind =>
    if named || kind == .file then return .file (← loadText path)
    else return .closed (.unknown .notFound)

/-- Writes the text that an outcome gives to a file. -/
def Outcome.commit (o : Outcome) : IO Outcome := do
  match o.written with
  | none => return o
  | some (path, text) =>
    try
      IO.FS.writeFile path text
      return o
    catch e => return ({} : Printed).fail (.unwritable path (FileFailure.ofError e))

end FlowAnalysis.CommandLine

/-- Carries out the command that the arguments give. -/
def main (arguments : List String) : IO UInt32 := do
  let paths := match Command.ofArguments arguments with
    | .ok c => c.paths
    | .error _ => []
  let found ← paths.mapM fun p => return (p, (← load p true).surveyed p)
  let look : Lookup := fun p => (Keyed.get? found p).getD (.error (.missing .notFound))
  let o ← (run look arguments).commit
  (← IO.getStdout).putStr o.stdout
  (← IO.getStderr).putStr o.stderr
  return o.exitCode.toUInt32
