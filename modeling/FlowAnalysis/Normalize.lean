import FlowAnalysis.Syntax.Source
import FlowAnalysis.Syntax.Walk
import FlowAnalysis.Text.Edit

/-!
# Normal form of control flow

In the normal form every branch and every loop body is a block.  A body that is a single statement
is promoted: braces are put around it, on lines of their own that keep the indentation of the
statement it belongs to, and nothing else in the text changes.

## Main definitions

* `Tree.bareBody?` — the body of a node that is a single statement.
* `Promotion` — a body to be promoted, with what its braces depend on.
* `Source.promotions` — the promotions of a source, outer ones first.
* `normalize` — the normal form of a text.
-/

namespace FlowAnalysis

open Syntax

namespace Syntax.Tree

/-- The body of a branch or of a loop, whatever it is.  An `if` right behind an `else` is not a
body, so that a chain of conditions stays a chain. -/
def body? (t : Tree) : Option Tree :=
  match t.label with
  | .rule .ifStatement => t.field? .consequence
  | .rule .elseClause => t.named.getLast?.filter fun s => !s.is .ifStatement
  | .rule .forStatement => t.field? .body
  | .rule .forInStatement => t.field? .body
  | .rule .whileStatement => t.field? .body
  | .rule .doStatement => t.field? .body
  | _ => none

/-- The body of a branch or of a loop that is a single statement. -/
def bareBody? (t : Tree) : Option Tree :=
  t.body?.filter fun s => !s.isAny [.statementBlock, .emptyStatement]

/-- The last of some siblings that stands before an offset and is not a comment. -/
def lastBefore? (siblings : List Tree) (offset : Nat) : Option Tree :=
  (siblings.filter fun s => decide (s.start < offset) && !s.is .comment).getLast?

end Syntax.Tree

/-- A body to be promoted, with what its braces depend on. -/
structure Promotion where
  /-- The offset just after the last token in front of the body. -/
  header : Nat
  /-- The body. -/
  body : Span
  /-- The indentation of the statement to which the body belongs. -/
  indent : List Char
  /-- The number of nodes around the body. -/
  depth : Nat
  /-- Whether nothing but blanks stands between the header and the body. -/
  adjacent : Bool
  deriving DecidableEq, Repr

namespace Promotion

/-- One more step of an indentation: a tab where tabs are used, else two blanks. -/
def deeper (indent : List Char) : List Char :=
  indent ++ if indent.contains '\t' then ['\t'] else [' ', ' ']

/-- The edit that opens the block.  A comment in front of the body stays where it is. -/
def opening (p : Promotion) : Text.Edit :=
  if p.adjacent then ⟨⟨p.header, p.body.start⟩, [' ', '\x7b', '\n'] ++ deeper p.indent⟩
  else .insertAt p.header [' ', '\x7b']

/-- The edit that closes the block. -/
def closing (p : Promotion) : Text.Edit :=
  .insertAt p.body.stop (['\n'] ++ p.indent ++ ['\x7d'])

end Promotion

namespace Syntax.Source

/-- The blanks at the beginning of the line in which an offset lies. -/
def lineIndent (s : Source) (offset : Nat) : List Char :=
  let before := (sliceOf s.text ⟨0, offset⟩).reverse.takeWhile (· ≠ '\n')
  (sliceOf s.text ⟨offset - before.length, s.text.size⟩).takeWhile fun c => c = ' ' || c = '\t'

/-- Whether a line ends between two offsets. -/
def lineEndsBetween (s : Source) (start stop : Nat) : Bool :=
  (sliceOf s.text ⟨start, stop⟩).contains '\n'

/-- Whether nothing but blanks stands between two offsets. -/
def blankBetween (s : Source) (start stop : Nat) : Bool :=
  (Text.trim (sliceOf s.text ⟨start, stop⟩)).isEmpty

/-- Where a node stands: the indentation of the line on which it begins once the bodies around it
have been promoted, and the number of nodes around it. -/
structure Place where
  indent : List Char
  depth : Nat

/-- The promotion of the body of a node, if it has one that is to be promoted. -/
def promotion? (s : Source) (owner : Tree) (p : Place) : Option Promotion := do
  let body ← owner.bareBody?
  let header ← Tree.lastBefore? owner.children body.start
  return ⟨header.stop, body.span, p.indent, p.depth + 1, s.blankBetween header.stop body.start⟩

/-- The place of a child: a promoted body gets a line of its own, and what begins on the line of
its parent shares the indentation of that. -/
def placeOf (s : Source) (parent : Tree) (p : Place) (child : Tree) : Place :=
  let indent :=
    match s.promotion? parent p with
    | some q =>
      if q.adjacent && decide (q.body = child.span) then some (Promotion.deeper q.indent) else none
    | none => none
  let inherited := fun () =>
    if s.lineEndsBetween parent.start child.start then s.lineIndent child.start else p.indent
  ⟨indent.getD (inherited ()), p.depth + 1⟩

/-- The promotions of a source, outer ones first. -/
def promotions (s : Source) : List Promotion :=
  (s.root.walkWith s.placeOf (fun _ _ => .enter) ⟨s.lineIndent s.root.start, 0⟩).filterMap
    fun (t, p) => s.promotion? t p

/-- The edits that bring a source into normal form, last ones first.  Blocks that end at the same
offset are closed from the outside, so that each closing brace is put in front of those around
it. -/
def normalEdits (s : Source) : List Text.Edit :=
  let edits := s.promotions.flatMap fun p => [(p.opening, p.depth), (p.closing, p.depth)]
  let later := fun (a b : Text.Edit × Nat) =>
    decide (b.1.span.start < a.1.span.start) ||
      decide (a.1.span.start = b.1.span.start) && decide (a.2 ≤ b.2)
  (edits.mergeSort later).map (·.1)

/-- The text of a source in normal form. -/
def normalized (s : Source) : String :=
  String.ofList (Text.Edit.applyEach s.text.toList s.normalEdits)

end Syntax.Source

/-- The normal form of a text; one that does not follow the grammar stays as it is. -/
def normalize (text : String) : String :=
  match Source.parse text with
  | .ok s => s.normalized
  | .error _ => text

/-- A text that does not follow the grammar stays as it is. -/
theorem normalize_of_error {text : String} {e : SyntaxError} (h : Source.parse text = .error e) :
    normalize text = text := by
  unfold normalize
  split
  · simp_all
  · rfl

/-- A text that follows the grammar is edited at its promotions. -/
theorem normalize_of_ok {text : String} {s : Source} (h : Source.parse text = .ok s) :
    normalize text = s.normalized := by
  unfold normalize
  split <;> simp_all

end FlowAnalysis
