import FlowAnalysis.Hash.Blake3
import FlowAnalysis.Syntax.Recovery

/-!
# Flow sources

A flow source is a text together with the tree that was read from it.  Only texts without a
defect become sources, so no analysis ever meets a partial tree.

## Main definitions

* `Source` — a text with its tree.
* `Defect`, `SyntaxError` — what does not follow the grammar, and where.
* `Source.ofTree`, `Source.parse` — the source of a tree or of a text, or its first defect.
-/

namespace FlowAnalysis.Syntax

/-- A text with the tree that was read from it. -/
structure Source where
  text : Chars
  root : Tree

/-- The first thing in a text that does not follow the grammar. -/
inductive Defect
  /-- A token is lacking. -/
  | missing (what : String)
  /-- A stretch of text fits nowhere. -/
  | unexpected (stretch : List Char)
  deriving DecidableEq, Repr

/-- What is said about a defect: of a stretch, the beginning of its first line is quoted. -/
def Defect.message : Defect → String
  | .missing what => "missing '" ++ what ++ "'"
  | .unexpected stretch =>
    match Text.trim ((Text.lines stretch).headD []) with
    | [] => "unexpected end of input"
    | snippet => "unexpected '" ++ String.ofList (snippet.take 40) ++ "'"

/-- A defect and where it begins. -/
structure SyntaxError where
  defect : Defect
  location : Location
  deriving DecidableEq, Repr

/-- The message of a syntax error. -/
def SyntaxError.message (e : SyntaxError) : String :=
  "Syntax error at line " ++ toString e.location.line ++ ", column " ++
    toString e.location.column ++ ": " ++ e.defect.message

/-- The characters of a text in a range. -/
def sliceOf (text : Chars) (span : Span) : List Char :=
  (text.extract span.start span.stop).toList

/-- The location of an offset in a text. -/
def locationOf (text : Chars) (offset : Nat) : Location :=
  Location.after (sliceOf text ⟨0, offset⟩)

namespace Source

/-- The characters that a node covers. -/
def chars (s : Source) (t : Tree) : List Char := sliceOf s.text t.span

/-- The text that a node covers. -/
def textOf (s : Source) (t : Tree) : String := String.ofList (s.chars t)

/-- The location at which a node begins. -/
def startOf (s : Source) (t : Tree) : Location := locationOf s.text t.start

/-- The location at which a node ends. -/
def stopOf (s : Source) (t : Tree) : Location := locationOf s.text t.stop

/-- The defect that a node stands for. -/
def defectAt (text : Chars) (t : Tree) : SyntaxError :=
  match t.label with
  | .missing what => ⟨.missing what, locationOf text t.start⟩
  | _ => ⟨.unexpected (sliceOf text t.span), locationOf text t.start⟩

/-- The source of a text and its tree, or the first defect.  It is looked for where nodes are marked
as having one in them; a tree in which none is found is taken as it is. -/
def ofTree (marked : Tree → Bool) (text : Chars) (root : Tree) : Except SyntaxError Source :=
  if marked root then
    match root.search? marked with
    | some t => .error (defectAt text t)
    | none => .ok ⟨text, root⟩
  else .ok ⟨text, root⟩

/-- The source of a text, or its first defect. -/
def parse (text : String) : Except SyntaxError Source :=
  let chars := text.toList.toArray
  ofTree Tree.hasDefect chars (Tree.ofText chars)

end Source

end FlowAnalysis.Syntax
