import FlowAnalysis.Keyed
import FlowAnalysis.Text.Blank

/-!
# Files and directories

What stands at the paths of a file system without links, and which of the files below a directory
are flows.  A directory is gone through in the order of the names, and where something in it cannot
be looked into nothing is found at all.

## Main definitions

* `FileTree` — a file, a directory, or what cannot be looked into.
* `FileFailure`, `FileObstacle` — why nothing can be read at a path, and why it cannot be looked
  into.
* `FileTree.locate`, `FileTree.find` — what stands at a path.
* `FileTree.visits` — what is met when an entry is gone through, and `FileTree.flowFiles`,
  `FileTree.obstacle?` — the flows among it and the first obstacle.
* `FileTree.lookup`, `FileTree.read` — what is found at a path.
* `FileTree.write` — the file system with another text in a file.
-/

namespace FlowAnalysis

/-- Why nothing can be read at a path. -/
inductive FileFailure
  | notFound
  | isDirectory
  | notDirectory
  | notAllowed
  | notText
  deriving DecidableEq, Repr, Inhabited

/-- The words for why nothing can be read. -/
def FileFailure.message : FileFailure → String
  | notFound => "No such file or directory (os error 2)"
  | isDirectory => "Is a directory (os error 21)"
  | notDirectory => "Not a directory (os error 20)"
  | notAllowed => "Permission denied (os error 13)"
  | notText => "stream did not contain valid UTF-8"

/-- Why something cannot be looked into. -/
inductive FileObstacle
  /-- A directory that cannot be opened. -/
  | unopened (cause : FileFailure)
  /-- A directory with an entry that cannot be read. -/
  | unlisted (cause : FileFailure)
  /-- Neither a file nor a directory, as far as can be told. -/
  | unknown (cause : FileFailure)
  deriving DecidableEq, Repr, Inhabited

/-- What stands at a path. -/
inductive FileTree
  /-- A file with its text, or with why it cannot be read. -/
  | file (content : Except FileFailure String)
  /-- A directory with the names of what it holds. -/
  | directory (entries : List (String × FileTree))
  /-- What cannot be looked into. -/
  | closed (obstacle : FileObstacle)
  deriving Inhabited

/-- What is met when an entry is gone through. -/
inductive FileVisit
  /-- A flow, with its text or with why it cannot be read. -/
  | flow (content : Except FileFailure String)
  | obstacle (obstacle : FileObstacle)
  deriving Repr

/-- Why nothing is found at a path. -/
inductive LookupFailure
  | missing (cause : FileFailure)
  /-- Something at or below a directory cannot be looked into. -/
  | blocked (path : String) (obstacle : FileObstacle)
  deriving DecidableEq, Repr

/-- Why no text can be read where nothing is found: behind an obstacle there is a directory. -/
def LookupFailure.whenRead : LookupFailure → FileFailure
  | missing cause => cause
  | blocked _ _ => .isDirectory

/-! ### Paths -/

/-- The names in a path, between its slashes. -/
def pathNames (path : String) : List String :=
  (Text.splitAt (· = '/') path.toList).map String.ofList

/-- The path of what a directory holds under a name. -/
def childPath (directory name : String) : String :=
  if directory.toList.getLast? = some '/' then directory ++ name else directory ++ "/" ++ name

/-- The part of a file name behind its last point, if something stands in front of that. -/
def extension? (name : String) : Option String :=
  match (Text.splitAt (· = '.') name.toList).reverse with
  | last :: before :: rest =>
    if before = [] ∧ rest = [] then none else some (String.ofList last)
  | _ => none

/-- Whether a file of this name in a directory is a flow. -/
def isFlowName (name : String) : Bool := extension? name = some "ts"

namespace FileTree

/-- Whether an entry is a directory. -/
def isDirectory : FileTree → Bool
  | file _ | closed (.unknown _) => false
  | directory _ | closed _ => true

/-- What a directory holds under a name. -/
def child? : FileTree → String → Option FileTree
  | file _, _ | closed _, _ => none
  | directory entries, name => Keyed.get? entries name

/-- What stands below a directory under some names, one inside the other. -/
def at? (root : FileTree) : List String → Option FileTree
  | [] => some root
  | name :: names => (root.child? name).bind (·.at? names)

/-- The names that lead to what is reached from a place by one name of a path.  Nothing is known
about what is outside of the root, or in a directory that cannot be looked into. -/
def step (root : FileTree) (place : List String) (name : String) :
    Except FileFailure (List String) :=
  match root.at? place with
  | none => .error .notFound
  | some e =>
    if !e.isDirectory then .error .notDirectory
    else if name = "" ∨ name = "." then .ok place
    else if name = ".." then if place = [] then .error .notFound else .ok place.dropLast
    else if (root.at? (place ++ [name])).isSome then .ok (place ++ [name])
    else .error .notFound

/-- The names that lead from the root to what stands at a path.  Nothing stands at the empty path. -/
def locate (root : FileTree) (path : String) : Except FileFailure (List String) :=
  if path = "" ∨ path.toList.head? = some '/' then .error .notFound
  else (pathNames path).foldlM root.step []

/-- What stands at a path. -/
def find (root : FileTree) (path : String) : Except FileFailure FileTree :=
  match root.locate path with
  | .error e => .error e
  | .ok place => (root.at? place).elim (.error .notFound) .ok

/-- The text of a file. -/
def text : FileTree → Except FileFailure String
  | file content => content
  | closed (.unknown cause) => .error cause
  | directory _ | closed _ => .error .isDirectory

/-! ### Going through a directory -/

mutual

/-- What is met when an entry is gone through, each with its path: a file is a flow, and so is each
file below a directory whose name says so.  What a directory holds is taken in the order of the
names. -/
def visits (path : String) : FileTree → List (String × FileVisit)
  | file content => [(path, .flow content)]
  | closed o => [(path, .obstacle o)]
  | directory entries =>
    (Keyed.sorted Keyed.stringLt (visitsIn path entries)).flatMap (·.2)

/-- What is met below the entries of a directory, by the name of the entry. -/
def visitsIn (path : String) :
    List (String × FileTree) → List (String × List (String × FileVisit))
  | [] => []
  | (name, e) :: rest =>
    let met := if e.isDirectory || isFlowName name then visits (childPath path name) e else []
    (name, met) :: visitsIn path rest

end

/-- The flows at and below an entry, each with its path. -/
def flowFiles (path : String) (e : FileTree) : List (String × Except FileFailure String) :=
  (e.visits path).filterMap fun
    | (p, .flow content) => some (p, content)
    | (_, .obstacle _) => none

/-- The first thing at or below an entry that cannot be looked into, with its path. -/
def obstacle? (path : String) (e : FileTree) : Option (String × FileObstacle) :=
  (e.visits path).findSome? fun
    | (_, .flow _) => none
    | (p, .obstacle o) => some (p, o)

/-- What has been gone through with nothing in the way.  What may not even be there counts as
missing. -/
def surveyed (path : String) (e : FileTree) : Except LookupFailure FileTree :=
  match e, e.obstacle? path with
  | closed (.unknown cause), _ => .error (.missing cause)
  | _, some (p, o) => .error (.blocked p o)
  | _, none => .ok e

/-- What is found at a path. -/
def lookup (root : FileTree) (path : String) : Except LookupFailure FileTree :=
  match root.find path with
  | .error cause => .error (.missing cause)
  | .ok e => e.surveyed path

/-- The text of the file at a path. -/
def read (root : FileTree) (path : String) : Except FileFailure String :=
  (root.lookup path).mapError LookupFailure.whenRead >>= text

/-! ### Changing the file system -/

/-- The directory with another entry under some names that lead to one. -/
def replaceAt (new : FileTree) : List String → FileTree → FileTree
  | [], _ => new
  | _ :: _, file content => file content
  | _ :: _, closed o => closed o
  | name :: names, directory entries =>
    directory (entries.map fun e => if e.1 = name then (name, replaceAt new names e.2) else e)

/-- The file system with another text in the file at a path. -/
def write (root : FileTree) (path text : String) : FileTree :=
  match root.locate path with
  | .error _ => root
  | .ok place => replaceAt (.file (.ok text)) place root

/-- The directory with an entry under some names, and with directories for all but the last. -/
def insertAt (new : FileTree) : List String → FileTree → FileTree
  | [], _ => new
  | name :: names, root =>
    let entries := match root with
      | file _ | closed _ => []
      | directory entries => entries
    let old := (Keyed.get? entries name).getD (directory [])
    directory (Keyed.put name (insertAt new names old) entries)

/-- The file system of some files by path; a path that ends in a slash is an empty directory. -/
def ofList (files : List (String × String)) : FileTree :=
  files.foldl (fun root f =>
    let names := pathNames f.1
    if names.getLast? = some "" then insertAt (directory []) names.dropLast root
    else insertAt (file (.ok f.2)) names root) (directory [])

@[simp] theorem at?_nil (root : FileTree) : root.at? [] = some root := rfl

@[simp] theorem at?_cons (root : FileTree) (name : String) (names : List String) :
    root.at? (name :: names) = (root.child? name).bind (·.at? names) := rfl

end FileTree

end FlowAnalysis
