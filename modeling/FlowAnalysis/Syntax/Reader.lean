import FlowAnalysis.Syntax.Lexeme
import FlowAnalysis.Syntax.Tree

/-!
# Reading a text into a tree

A reader consumes text from an offset and adds the nodes that it reads to the children of the
node under construction.  Readers are ordinary functions on a state, so an alternative that fails
leaves no trace but the furthest impasse that it met.

## Main definitions

* `Patch` — how a defective text is mended while it is read.
* `Impasse` — where a text cannot be read on, and what was open there.
* `State`, `Reply`, `Reader` — what a reader starts from and what it answers.
* `Reader.token`, `Reader.word`, `Reader.leaf` — single tokens.
* `Reader.node`, `Reader.wrap`, `Reader.inRole` — nodes over what other readers read.
* `State.semicolonAt?` — where a semicolon may be left out.
-/

namespace FlowAnalysis.Syntax

/-- How a defective text is mended while it is read. -/
inductive Patch
  /-- Passes over a stretch of text that fits nowhere; it is made up of some trees. -/
  | skip (span : Span) (trees : Nat)
  /-- Supplies a token at an offset. -/
  | supply (offset : Nat) (what : String)
  deriving DecidableEq, Repr, Inhabited

/-- A point from which a text cannot be read on. -/
structure Impasse where
  /-- The offset of the token that fits nowhere. -/
  offset : Nat := 0
  /-- The offset at which what has been read ends. -/
  reached : Nat := 0
  /-- The children read so far of every construct that is open, the innermost construct first and
  the newest child first. -/
  frames : List (List Tree) := []
  deriving Inhabited

/-- The further of two impasses, the second if they stand at the same offset. -/
def Impasse.further (a b : Impasse) : Impasse := if b.offset < a.offset then a else b

/-- What a reader starts from. -/
structure State where
  /-- The whole text. -/
  text : Chars
  /-- The offset from which the next token is looked for. -/
  pos : Nat := 0
  /-- The children read so far of the node under construction, newest first. -/
  out : List Tree := []
  /-- The same for the nodes around the node under construction, the innermost first. -/
  around : List (List Tree) := []
  /-- The furthest point at which a token was looked for in vain. -/
  impasse : Impasse := {}
  /-- Whether what has just been read cannot end an operand. -/
  fresh : Bool := true
  /-- Whether the construct that is being read may end without a semicolon. -/
  endable : Bool := false
  /-- Whether an operator could follow the construct that is being read. -/
  operable : Bool := false
  /-- The patches that mend the text. -/
  patches : List Patch := []
  /-- Where the patch that was used last ends. -/
  mended : Option Nat := none

/-- What a reader answers. -/
inductive Reply (α : Type)
  /-- The reader succeeded. -/
  | done (value : α) (state : State)
  /-- The reader failed; the furthest impasse is kept. -/
  | failed (impasse : Impasse)

/-- A reader of values of a type. -/
def Reader (α : Type) := State → Reply α

namespace Lexeme

/-- The end of the comment that begins at an offset; markup comments are recognised only when
`fresh` holds. -/
def anyCommentEnd? (text : Chars) (fresh : Bool) (i : Nat) : Option (Kind × Nat) :=
  match commentEnd? text i with
  | some j => some (.comment, j)
  | none => if fresh then (markupCommentEnd? text i).map (Kind.htmlComment, ·) else none

end Lexeme

namespace State

open Lexeme

/-- The patch that passes over the text at an offset. -/
def skipAt? (s : State) (i : Nat) : Option Span :=
  s.patches.findSome? fun
    | .skip span _ => if span.start = i then some span else none
    | .supply _ _ => none

/-- A node without children. -/
def leafOf (label : Label) (start stop : Nat) : Tree := .node label none ⟨start, stop⟩ []

/-- The comment or the stretch to pass over that stands next, if one does. -/
def extra? (s : State) : Option Tree :=
  let i := skipBlanks s.text s.pos
  match s.skipAt? i with
  | some span => some (leafOf .error span.start span.stop)
  | none =>
    (anyCommentEnd? s.text s.fresh i).map fun (kind, j) => leafOf (.rule kind) i j

/-- The state after the comment or the stretch to pass over that stands next, which becomes a child
of the node under construction. -/
def afterExtra (s : State) (t : Tree) : State :=
  { s with
    pos := t.stop
    out := t :: s.out
    mended := if t.label = .error then some t.stop else s.mended }

/-- The state after all comments that stand next, `n` at most. -/
def flushUpTo : Nat → State → State
  | 0, s => s
  | n + 1, s =>
    match s.extra? with
    | some t => if s.pos < t.stop then flushUpTo n (s.afterExtra t) else s
    | none => s

/-- The state after all comments that stand next. -/
def flush (s : State) : State := flushUpTo (s.text.size + 1) s

/-- The offset at which the next token begins. -/
def next (s : State) : Nat :=
  let t := s.flush
  skipBlanks t.text t.pos

/-- The character with which the next token begins. -/
def peek? (s : State) : Option Char := s.text[s.next]?

/-- Whether the next token begins with the given characters. -/
def sees (s : State) (part : String) : Bool := hasAt s.text part.toList s.next

/-- The text between two offsets. -/
def slice (s : State) (start stop : Nat) : String :=
  String.ofList (s.text.extract start stop).toList

/-- The identifier or keyword that stands next. -/
def word? (s : State) : Option String :=
  let i := s.next
  (wordEnd? s.text i).map (s.slice i)

/-- Whether the given word stands next. -/
def seesWord (s : State) (w : String) : Bool := s.word? = some w

/-- Whether a semicolon may be left out before a word that begins with `i`: not before `in` and
`instanceof`. -/
def endsBeforeI (text : Chars) (i : Nat) : Bool :=
  let letterAt := fun j => (text[j]?).any Char.isAlpha
  if text[i + 1]? ≠ some 'n' then true
  else if !letterAt (i + 2) then false
  else if !hasAt text "stanceof".toList (i + 2) then true
  else letterAt (i + 10)

/-- The offset after blanks and comments, unless a slash that begins no comment is met. -/
def pastComments? (text : Chars) : Nat → Nat → Option Nat
  | 0, _ => none
  | n + 1, i =>
    let j := runEnd text Text.isAsciiBlank i
    if text[j]? = some '/' then
      if text[j + 1]? = some '/' then
        pastComments? text n (runEnd text (fun c => isPlain c && c ≠ '\n') (j + 2))
      else if text[j + 1]? = some '*' then
        match blockEnd? text (text.size - j) (j + 2) with
        | some k => pastComments? text n k
        | none => some text.size
      else none
    else some j

/-- Whether a semicolon may be left out before the token at an offset that begins a new line. -/
def endsBefore (text : Chars) (operable : Bool) (bodyOk : Bool) (i : Nat) : Bool :=
  match text[i]? with
  | none => true
  | some c =>
    if "\x60,.;*%><=?^|&/:".toList.contains c then false
    else if c = '\x7b' then !bodyOk
    else if c = '(' || c = '[' then !operable
    else if c = '+' then text[i + 1]? = some '+'
    else if c = '-' then text[i + 1]? = some '-'
    else if c = '!' then text[i + 1]? ≠ some '='
    else if c = 'i' then endsBeforeI text i
    else true

/-- Whether a semicolon may be left out at an offset: at the end of the text, before a closing
brace, or at the end of a line whose successor does not continue the construct. -/
def endsAt (text : Chars) (operable : Bool) (bodyOk : Bool) (i : Nat) : Bool :=
  let j := runEnd text (fun c => Text.isAsciiBlank c && c ≠ '\n') i
  match text[j]? with
  | none => true
  | some '\x7d' =>
    let k := runEnd text Text.isAsciiBlank (j + 1)
    if text[k]? = some ':' then operable else true
  | some '\n' =>
    match pastComments? text (text.size + 1) (j + 1) with
    | some k => endsBefore text operable bodyOk k
    | none => false
  | some _ => false

/-- The state at the first point, here or after one of the comments that stand next, where a
semicolon may be left out.  None may be left out right behind a patch. -/
def semicolonUpTo (operable bodyOk : Bool) : Nat → State → Option State
  | 0, _ => none
  | n + 1, s =>
    if s.mended = some s.pos then none
    else if endsAt s.text operable bodyOk s.pos then some s
    else
      match s.extra? with
      | some t =>
        if s.pos < t.stop then semicolonUpTo operable bodyOk n (s.afterExtra t) else none
      | none => none

/-- The state at the point where a semicolon may be left out. -/
def semicolonAt? (s : State) (operable bodyOk : Bool) : Option State :=
  semicolonUpTo operable bodyOk (s.text.size + 1) s

/-- Whether the construct that is being read may end here, so that nothing continues it. -/
def mayEnd (s : State) : Bool := s.endable && (s.semicolonAt? s.operable false).isSome

/-- Whether a patch supplies a token at the point that has been reached. -/
def supplies (s : State) (what : String) : Bool :=
  !s.patches.isEmpty && s.patches.contains (.supply s.flush.pos what)

/-- The state after a token that a patch supplies and that becomes a child under a name. -/
def afterSupply (s : State) (what name : String) (fresh : Bool) : State :=
  let t := s.flush
  { t with
    out := leafOf (.missing name) t.pos t.pos :: t.out
    patches := t.patches.erase (.supply t.pos what)
    mended := some t.pos
    fresh }

/-- The point at which nothing that is looked for stands next. -/
def stuck (s : State) : Impasse :=
  let t := s.flush
  s.impasse.further ⟨skipBlanks t.text t.pos, t.pos, t.out :: t.around⟩

end State

namespace Reader

open Lexeme

variable {α β : Type}

/-- The reader that reads nothing. -/
def give (a : α) : Reader α := fun s => .done a s

/-- One reader after another. -/
def andThen (r : Reader α) (f : α → Reader β) : Reader β := fun s =>
  match r s with
  | .done a t => f a t
  | .failed i => .failed i

/-- The first of two readers, or the second where the first fails. -/
def orElse (r q : Reader α) : Reader α := fun s =>
  match r s with
  | .done a t => .done a t
  | .failed i => q { s with impasse := s.impasse.further i }

instance : Monad Reader where
  pure := give
  bind := andThen

instance : OrElse (Reader α) := ⟨fun r q => orElse r (q ())⟩

/-- The state as it is. -/
def current : Reader State := fun s => .done s s

/-- Fails where the next token begins. -/
def refuse : Reader α := fun s => .failed s.stuck

/-- Fails unless a condition holds. -/
def require (p : State → Bool) : Reader Unit := fun s =>
  if p s then .done () s else refuse s

/-- Reads what a reader reads, or nothing. -/
def maybe (r : Reader Unit) : Reader Unit := orElse r (give ())

/-- Reads what a reader reads where a condition holds, and nothing elsewhere. -/
def onlyIf (p : State → Bool) (r : Reader Unit) : Reader Unit := fun s =>
  if p s then r s else .done () s

/-- Whether the next thing is what a reader reads; nothing is consumed. -/
def ahead (r : Reader α) : Reader Bool := fun s =>
  match r s with
  | .done _ _ => .done true s
  | .failed _ => .done false s

/-- Repeats a reader as often as it succeeds and consumes something, `n` times at most. -/
def manyUpTo (r : Reader Unit) : Nat → Reader Unit
  | 0 => give ()
  | n + 1 => fun s =>
    match r s with
    | .failed i => .done () { s with impasse := s.impasse.further i }
    | .done _ t => if t.pos ≤ s.pos then .done () t else manyUpTo r n t

/-- Repeats a reader as often as it succeeds and consumes something. -/
def many (r : Reader Unit) : Reader Unit := fun s => manyUpTo r (s.text.size + 1 - s.pos) s

/-- Adds a leaf that begins at the next token and ends at an offset. -/
def push (label : Label) (fresh : Bool) (stop : Nat) : Reader Unit := fun s =>
  let t := s.flush
  let i := skipBlanks t.text t.pos
  .done () { t with
    pos := stop, fresh, out := State.leafOf label i stop :: t.out }

/-- Reads a punctuation mark; `fresh` says that it cannot end an operand. -/
def tokenWith (fresh : Bool) (mark : String) : Reader Unit := fun s =>
  let i := s.next
  if hasAt s.text mark.toList i then push (.token mark) fresh (i + mark.length) s else refuse s

/-- Reads a token that a patch may supply. -/
def suppliable (what name : String) (fresh : Bool) (r : Reader Unit) : Reader Unit := fun s =>
  if s.supplies what then .done () (s.afterSupply what name fresh) else r s

/-- Reads a punctuation mark inside a construct, which ends no operand. -/
def token (mark : String) : Reader Unit := tokenWith true mark

/-- Reads a punctuation mark that ends a construct, which then is no operand. -/
def ending (mark : String) : Reader Unit := suppliable mark mark true (tokenWith true mark)

/-- Reads a punctuation mark that ends a construct, which then is an operand. -/
def closing (mark : String) : Reader Unit := suppliable mark mark false (tokenWith false mark)

/-- Reads the given keyword. -/
def word (w : String) : Reader Unit := fun s =>
  let i := s.next
  match wordEnd? s.text i with
  | some j => if s.slice i j = w then push (.token w) true j s else refuse s
  | none => refuse s

/-- Reads one of the given keywords. -/
def anyWord (ws : List String) : Reader Unit := fun s =>
  match s.word? with
  | some w => if ws.contains w then word w s else refuse s
  | none => refuse s

/-- Reads the given keyword as a node of a kind. -/
def wordAs (kind : Kind) (w : String) : Reader Unit := fun s =>
  let i := s.next
  match wordEnd? s.text i with
  | some j =>
    if s.slice i j = w then push (.rule kind) false j s else refuse s
  | none => refuse s

/-- Reads a leaf of a kind whose end is found by a function on offsets. -/
def leaf (kind : Kind) (stop? : Chars → Nat → Option Nat) : Reader Unit := fun s =>
  let i := s.next
  match stop? s.text i with
  | some j => push (.rule kind) false j s
  | none => refuse s

/-- Reads a leaf of a kind that begins at the very offset that has been reached. -/
def leafHere (label : Label) (stop? : Chars → Nat → Option Nat) : Reader Unit := fun s =>
  match stop? s.text s.pos with
  | some j =>
    .done () { s with pos := j, fresh := false, out := State.leafOf label s.pos j :: s.out }
  | none => .failed (s.impasse.further ⟨s.pos, s.pos, s.out :: s.around⟩)

/-- Reads an identifier, keywords included, as a node of a kind, where more of the construct must
follow. -/
def heading (kind : Kind) : Reader Unit := leaf kind wordEnd?

/-- What a name of a kind is called where it is missing. -/
def nameOf : Kind → String
  | .typeIdentifier => "type_identifier"
  | .propertyIdentifier => "property_identifier"
  | .shorthandPropertyIdentifier => "shorthand_property_identifier"
  | .shorthandPropertyIdentifierPattern => "shorthand_property_identifier_pattern"
  | _ => "identifier"

/-- Reads an identifier, keywords included, as a node of a kind, where the construct may end. -/
def name (kind : Kind) : Reader Unit :=
  suppliable "identifier" (nameOf kind) false (heading kind)

/-- A node over children, newest first. -/
def assemble (kind : Kind) (newestFirst : List Tree) (pos : Nat) : Tree :=
  let stop := (newestFirst.head?.map Tree.stop).getD pos
  let start := (newestFirst.getLast?.map Tree.start).getD pos
  .node (.rule kind) none ⟨start, stop⟩ newestFirst.reverse

/-- Reads a node whose kind is found from its children, newest first; comments in front of it stay
outside. -/
def nodeBy (kind : List Tree → Kind) (r : Reader Unit) : Reader Unit := fun s =>
  let t := s.flush
  match r { t with out := [], around := t.out :: t.around } with
  | .done _ u =>
    .done () { u with out := assemble (kind u.out) u.out u.pos :: t.out, around := t.around }
  | .failed i => .failed i

/-- Reads a node of a kind. -/
def node (kind : Kind) (r : Reader Unit) : Reader Unit := nodeBy (fun _ => kind) r

/-- Reads the rest of a node whose first child has been read already; that child gets a role. -/
def wrap (kind : Kind) (role : Option Role) (r : Reader Unit) : Reader Unit := fun s =>
  match s.out with
  | [] => refuse s
  | first :: rest =>
    match r { s with out := [first.withRole role], around := rest :: s.around } with
    | .done _ u =>
      .done () { u with out := assemble kind u.out u.pos :: rest, around := s.around }
    | .failed i => .failed i

/-- Gives a role to the newest child that is neither a comment nor a defect. -/
def mark (role : Role) : List Tree → List Tree
  | [] => []
  | t :: ts =>
    if t.isAny [.comment, .htmlComment] || t.label = .error then t :: mark role ts
    else t.withRole role :: ts

/-- Reads a node and gives it a role. -/
def inRole (role : Role) (r : Reader Unit) : Reader Unit := fun s =>
  match r s with
  | .done _ t => .done () { t with out := mark role t.out }
  | .failed i => .failed i

/-- The newest child, if it is of one of the given kinds. -/
def newestIs (kinds : List Kind) (s : State) : Bool :=
  (s.out.head?).any (·.isAny kinds)

/-- Reads with the given answers to whether the construct may end without a semicolon and whether
an operator could follow it. -/
def within (endable operable : Bool) (r : Reader α) : Reader α := fun s =>
  match r { s with endable, operable } with
  | .done a t => .done a { t with endable := s.endable, operable := s.operable }
  | .failed i => .failed i

/-- Reads inside brackets, where nothing may end without a semicolon. -/
def bracketed (r : Reader α) : Reader α := within false false r

/-- Reads an operand, which an operator could follow. -/
def operand (r : Reader α) : Reader α := fun s => within s.endable true r s

/-- Reads a type, which no operator could follow. -/
def typed (r : Reader α) : Reader α := fun s => within s.endable false r s

/-- Whether nothing continues the construct that is being read. -/
def continues (s : State) : Bool := !s.mayEnd

/-- Reads the point where a semicolon is left out.  Comments before that point belong to the
construct that ends there. -/
def silentSemicolon (bodyOk operable : Bool) : Reader Unit := fun s =>
  match s.semicolonAt? operable bodyOk with
  | some t => .done () { t with fresh := true }
  | none => refuse s

/-- Reads a semicolon that may be left out; `bodyOk` says that a body could follow instead. -/
def semicolonOr (bodyOk operable : Bool) : Reader Unit :=
  orElse (silentSemicolon bodyOk operable) (ending ";")

/-- Reads a semicolon that may be left out, where no body could follow instead. -/
def semicolon (operable : Bool) : Reader Unit := semicolonOr false operable

/-- Reads items with commas between them, at least one. -/
def separated (item : Reader Unit) : Reader Unit := do
  item
  many (do token ","; item)

/-- Reads items with commas between them and perhaps one at the end. -/
def listed (item : Reader Unit) : Reader Unit := do
  maybe (separated item)
  maybe (token ",")

/-- Reads items with commas between them, where any item may be left out. -/
def sparse (item : Reader Unit) : Reader Unit := do
  maybe item
  many (do token ","; maybe item)

end Reader

end FlowAnalysis.Syntax
