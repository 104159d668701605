import FlowAnalysis.Syntax.Grammar.Statement
import FlowAnalysis.Syntax.Stray

/-!
# Mending defective texts

A text that cannot be read to its end gets a tree nevertheless.  Where reading gets stuck, patches
are tried: a token may be supplied, or the constructs that are open may be given up one after the
other, with some of the text that follows, until what comes next fits.  Every patch has a price,
and the cheapest way to go on wins unless it leads into the next impasse sooner than a dearer one.

## Main definitions

* `Reading`, `readWith` — what reading a text with patches comes to.
* `Patch.price` — the price of a patch.
* `Impasse.retreats` — the constructs that may be given up.
* `Bid` — a way to go on, and what becomes of it.
* `Impasse.wayOn` — the way on that is chosen at an impasse.
* `Tree.ofText` — the tree of a text, with its defects in place.
* `Tree.hasDefect`, `Tree.search?` — whether there is a defect in a tree, and the search for one.
-/

namespace FlowAnalysis.Syntax

open Lexeme

/-- What reading a text comes to. -/
inductive Reading
  /-- The text has been read to its end. -/
  | finished (root : Tree)
  /-- The text cannot be read on. -/
  | stuck (impasse : Impasse)
  deriving Inhabited

/-- Reads a whole text with patches. -/
def readWith (patches : List Patch) (text : Chars) : Reading :=
  let start : State := { text, patches }
  match Grammar.program (Grammar.upTo (64 * (text.size + 1))) start with
  | .failed i => .stuck i
  | .done _ s =>
    let t := s.flush
    if skipBlanks text t.pos = text.size then
      let children := t.out.reverse
      let first := (children.head?.map Tree.start).getD text.size
      .finished (.node (.rule .program) none ⟨first, text.size⟩ children)
    else .stuck t.stuck

/-! ### Prices -/

/-- The price of a token that is supplied. -/
def supplyPrice : Nat := 610

/-- The price of a stretch of text that is passed over and that is made up of some trees: every
byte, every line and every tree counts. -/
def skipPrice (text : Chars) (span : Span) (trees : Nat) : Nat :=
  let stretch := (text.extract span.start span.stop).toList
  500 + stretch.foldl (fun n c => n + c.utf8Size) 0 + 30 * stretch.count '\n' + 100 * trees

/-- The price of a patch. -/
def Patch.price (text : Chars) : Patch → Nat
  | .skip span trees => skipPrice text span trees
  | .supply _ _ => supplyPrice

/-- The price of some patches together. -/
def priceOf (text : Chars) (patches : List Patch) : Nat :=
  patches.foldl (fun n p => n + p.price text) 0

/-! ### Constructs to give up -/

/-- Some text that is given up: where it begins, and how many trees it is made up of. -/
structure Retreat where
  start : Nat
  trees : Nat
  deriving DecidableEq, Repr, Inhabited

/-- Whether a node is a comment or a defect, which belongs to no construct. -/
def Tree.isExtra (t : Tree) : Bool := t.isAny [.comment, .htmlComment] || t.label = .error

/-- Whether nothing can continue the construct that ends in the node. -/
def Tree.isFinal (t : Tree) : Bool :=
  match t.label with
  | .token _ => true
  | _ => t.isAny [.propertyIdentifier, .privatePropertyIdentifier, .stringFragment]

mutual

/-- The ways to see a node that was read last: taken apart as far as what it ends in can be
continued, from the furthest apart to the node as a whole; parts come newest first. -/
def Tree.facets : Tree → List (List Tree)
  | .node l r s ts => Tree.facetsOf ts ++ [[.node l r s ts]]

/-- The ways to see the children of a node that was read last. -/
def Tree.facetsOf : List Tree → List (List Tree)
  | [] => []
  | t :: ts =>
    if t.isExtra then Tree.facetsOf ts
    else if ts.all Tree.isExtra then if t.isFinal then [] else Tree.facets t
    else (Tree.facetsOf ts).map (· ++ [t])

end

/-- The kinds of the nodes that form a sequence with their neighbours. -/
def sequenceKinds : List Kind :=
  [.importStatement, .exportStatement, .variableDeclaration, .lexicalDeclaration,
   .functionDeclaration, .generatorFunctionDeclaration, .functionSignature, .classDeclaration,
   .abstractClassDeclaration, .interfaceDeclaration, .typeAliasDeclaration, .enumDeclaration,
   .importAlias, .ambientDeclaration, .methodDefinition, .fieldDefinition, .classStaticBlock,
   .expressionStatement, .emptyStatement, .ifStatement, .switchStatement, .switchCase,
   .switchDefault, .forStatement, .forInStatement, .whileStatement, .doStatement, .tryStatement,
   .withStatement, .breakStatement, .continueStatement, .debuggerStatement, .returnStatement,
   .throwStatement, .labeledStatement]

/-- Whether a node forms a sequence with its neighbours. -/
def Tree.inSequence (t : Tree) : Bool := t.isAny sequenceKinds || t.isToken ";"

/-- Whether a node separates the entries of a list. -/
def Tree.isComma (t : Tree) : Bool := t.isToken ","

/-- The retreats over some trees, newest first, one after the other, where `trees` have been given up
before.  Members of a sequence are given up together, and so are the entries of a list between its
first and its last; `newer` is what has been given up last, and `listed` says that it is such an
entry. -/
def retreatsOver (newer : Option Tree) (listed : Bool) (trees : Nat) : List Tree → List Retreat
  | [] => []
  | t :: ts =>
    let isEntry := newer.any Tree.isComma && !t.isComma && (ts.head?).any Tree.isComma
    let joined :=
      isEntry ||
      listed && t.isComma && (ts[1]?).any Tree.isComma ||
      t.inSequence && (ts.head?).any Tree.inSequence
    let rest := retreatsOver (some t) isEntry (trees + 1) ts
    if joined then rest else ⟨t.start, trees + 1⟩ :: rest

/-- How many constructs are given up at most. -/
def retreatLimit : Nat := 15

/-- The retreats from an impasse, the shortest first. -/
def Impasse.retreats (i : Impasse) : List Retreat :=
  let stack := i.frames.flatten.filter (!·.isExtra)
  match stack with
  | [] => []
  | newest :: older =>
    let ways := newest.facets.map fun parts => retreatsOver none false 0 (parts ++ older)
    let all := (List.range retreatLimit).flatMap fun depth => ways.filterMap (·[depth]?)
    all.foldl (fun kept r => if kept.any (·.start = r.start) then kept else kept ++ [r]) []

/-! ### How deep a defect lies -/

/-- Whether the node is a defect. -/
def Tree.isDefect (t : Tree) : Bool :=
  match t.label with
  | .error | .missing _ => true
  | _ => false

mutual

/-- How deep the defect that begins at an offset lies in a tree. -/
def Tree.defectDepth? (offset : Nat) : Tree → Option Nat
  | .node l r s ts =>
    if (Tree.node l r s ts).isDefect && s.start = offset then some 0
    else (Tree.defectDepthOf? offset ts).map (· + 1)

/-- How deep the defect that begins at an offset lies in some trees. -/
def Tree.defectDepthOf? (offset : Nat) : List Tree → Option Nat
  | [] => none
  | t :: ts => (Tree.defectDepth? offset t).or (Tree.defectDepthOf? offset ts)

end

/-- How deep the defect that begins at an offset lies in what has been read. -/
def Reading.defectDepth (offset : Nat) : Reading → Nat
  | .finished root => (root.defectDepth? offset).getD 0
  | .stuck i =>
    let level := fun (ts, k) => (Tree.defectDepthOf? offset ts).map (· + k + 1)
    (i.frames.reverse.zipIdx.findSome? level).getD 0

/-! ### Ways to go on -/

/-- A way to go on: patches, their price, and what reading with them comes to. -/
structure Bid where
  patches : List Patch
  price : Nat
  reading : Reading
  deriving Inhabited

namespace Bid

/-- The bid that some patches make. -/
def ofPatches (text : Chars) (patches : List Patch) : Bid :=
  ⟨patches, priceOf text patches, readWith patches text⟩

/-- The offset of the next impasse of a bid; beyond the end of the text if there is none. -/
def reach (text : Chars) (b : Bid) : Nat :=
  match b.reading with
  | .finished _ => text.size + 1
  | .stuck i => i.offset

/-- How deep the defect lies that the newest patch of a bid makes. -/
def depth (b : Bid) : Nat :=
  match b.patches with
  | .skip span _ :: _ => b.reading.defectDepth span.start
  | .supply offset _ :: _ => b.reading.defectDepth offset
  | [] => 0

/-- Whether a bid is to be tried before another one that was made earlier: it costs less, or it costs
the same and its defect does not lie deeper. -/
def before (b a : Bid) : Bool :=
  b.price < a.price || b.price = a.price && b.depth ≤ a.depth

/-- The better of two bids that begin at an offset, the first of which was made first.  The cheaper
one is, unless the dearer one goes on further and its price does not lie too far ahead for the text
that the cheaper one covers. -/
def better (text : Chars) (origin : Nat) (a b : Bid) : Bid :=
  let (cheap, dear) := if b.before a then (b, a) else (a, b)
  if dear.reach text ≤ cheap.reach text then cheap
  else
    let covered := (Stray.between text text.size origin (cheap.reach text)).length
    if 1800 < (dear.price - cheap.price) * (1 + covered * 3 / 2) then cheap else dear

/-- The best of some bids in the order in which they were made. -/
def best? (text : Chars) (origin : Nat) : List Bid → Option Bid
  | [] => none
  | b :: bs => some (bs.foldl (better text origin) b)

end Bid

/-- The root of a text that fits nowhere as a whole. -/
def hopeless (text : Chars) : Tree :=
  .node .error none ⟨skipBlanks text 0, text.size⟩ []

namespace Impasse

/-- The tokens that may be supplied, in the order in which they are tried. -/
def suppliable : List String :=
  ["identifier", "\x7d", ")", ";", "]", ">", "\"", "'", "\x60"]

/-- Whether an impasse at the end of the text stands in the body of a class whose base has type
arguments, behind a single method.  Such a body cannot be told from an object that is compared with
the base. -/
def isAmbiguousBody (i : Impasse) : Bool :=
  match i.frames.map (·.filter (!·.isExtra)) with
  | [method, brace] :: (heritage :: _) :: _ =>
    method.is .methodDefinition && brace.isToken "\x7b" && heritage.is .classHeritage &&
      heritage.nodes.any (·.is .typeArguments)
  | _ => false

/-- The bid to supply a token. -/
def supplyBid? (text : Chars) (patches : List Patch) (i : Impasse) : Option Bid :=
  if text.size ≤ i.offset && i.isAmbiguousBody then none
  else suppliable.findSome? fun what =>
    let b := Bid.ofPatches text (.supply i.reached what :: patches)
    if i.offset < b.reach text then some b else none

/-- The patches together with one that passes over a stretch.  Patches behind its beginning are
dropped, and a stretch that ends where it begins is joined to it. -/
def passOver (text : Chars) (span : Span) (trees : Nat) (patches : List Patch) : List Patch :=
  let kept := patches.filter fun
    | .skip s _ => s.stop ≤ span.start
    | .supply offset _ => offset ≤ span.start
  let joined := kept.findSome? fun
    | .skip s n => if skipBlanks text s.stop = span.start then some (s, n) else none
    | .supply _ _ => none
  match joined with
  | some (s, n) => .skip ⟨s.start, span.stop⟩ (n + trees) :: kept.erase (.skip s n)
  | none => .skip span trees :: kept

/-- How many of some pieces are lexemes. -/
def lexemeCount (pieces : List Stray) : Nat := pieces.countP (·.isLexeme)

/-- The bid to give up as few constructs as possible, with the pieces that have been passed over
since, newest first, so that what stands at an offset fits. -/
def skipBid? (text : Chars) (patches : List Patch) (i : Impasse) (passed : List Stray)
    (target : Nat) : Option Bid :=
  let here := (passed.getLast?.map fun s => Retreat.mk s.span.start 0).toList
  let stop := (passed.head?.map (·.span.stop)).getD i.reached
  (here ++ i.retreats).findSome? fun r =>
    let trees := r.trees + lexemeCount passed
    let b := Bid.ofPatches text (passOver text ⟨r.start, stop⟩ trees patches)
    if target < b.reach text then some b else none

/-- The bid to give up everything. -/
def hopelessBid (text : Chars) (i : Impasse) (passed : List Stray) : Bid :=
  let root := hopeless text
  let trees := (i.frames.flatten.filter (!·.isExtra)).length + lexemeCount passed
  ⟨[], skipPrice text root.span trees, .finished root⟩

/-- A bid that reads the text to its end: the bid itself, or where it gets stuck at the end only,
the bid with a token supplied there. -/
def completion? (text : Chars) (b : Bid) : Option Bid :=
  match b.reading with
  | .finished _ => some b
  | .stuck i => if text.size ≤ i.offset then supplyBid? text b.patches i else none

/-- The way on that is chosen at an impasse, once some pieces have been passed over and some bids
have been made; at most `n` more pieces are passed over.  A bid that does not fit the next piece is
dropped, and no more bids are made once passing over that piece would cost more than a bid. -/
def wayOnUpTo (text : Chars) (patches : List Patch) (i : Impasse) :
    Nat → List Stray → List Bid → Option Bid
  | 0, _, bids => Bid.best? text i.offset bids
  | n + 1, passed, bids =>
    let target := pastExtras text ((passed.head?.map (·.span.stop)).getD i.offset)
    match Stray.at? text target with
    | none =>
      Bid.best? text i.offset <| bids.filterMap (completion? text) ++
        (skipBid? text patches i passed target).toList ++ [hopelessBid text i passed]
    | some next =>
      let fitting := bids.filter (target < ·.reach text)
      let live := if next.isLexeme then fitting ++ (skipBid? text patches i passed target).toList
        else fitting
      let pieces := next :: passed
      let ceiling := priceOf text patches +
        skipPrice text ⟨i.offset, next.span.stop⟩ (lexemeCount pieces)
      if !passed.isEmpty && live.any (·.price < ceiling) then Bid.best? text i.offset live
      else wayOnUpTo text patches i n pieces live

/-- The way on that is chosen at an impasse. -/
def wayOn (text : Chars) (patches : List Patch) (i : Impasse) : Option Bid :=
  wayOnUpTo text patches i (text.size + 1) [] (supplyBid? text patches i).toList

end Impasse

/-! ### Trees of defective texts -/

/-- The leaf that stands for a patch. -/
def Patch.leaf : Patch → Tree
  | .skip span _ => State.leafOf .error span.start span.stop
  | .supply offset what => State.leafOf (.missing what) offset offset

/-- A tree that shows nothing of a text but its patches. -/
def outline (text : Chars) (patches : List Patch) : Tree :=
  .node (.rule .program) none ⟨skipBlanks text 0, text.size⟩ <|
    (patches.map Patch.leaf).mergeSort fun a b => a.start ≤ b.start

/-- The tree of a text that is stuck at an impasse, once some patches have been made; at most `n`
more impasses are mended. -/
def mend (text : Chars) : Nat → List Patch → Impasse → Tree
  | 0, patches, _ => outline text patches
  | n + 1, patches, i =>
    match i.wayOn text patches with
    | none => hopeless text
    | some b =>
      match b.reading with
      | .finished root => root
      | .stuck j => mend text n b.patches j

/-- How many impasses are mended at most. -/
def mendLimit : Nat := 30

/-- The tree of a text, with its defects in place. -/
def Tree.ofText (text : Chars) : Tree :=
  match readWith [] text with
  | .finished root => root
  | .stuck i => mend text mendLimit [] i

/-! ### Looking for a defect -/

namespace Tree

/-- Whether the node stands for a token that the text lacks. -/
def isMissing (t : Tree) : Bool :=
  match t.label with
  | .missing _ => true
  | _ => false

mutual

/-- Whether there is a defect in a tree. -/
def hasDefect : Tree → Bool
  | node l r s ts => (node l r s ts).isDefect || hasDefectIn ts

/-- Whether there is a defect in one of some trees. -/
def hasDefectIn : List Tree → Bool
  | [] => false
  | t :: ts => hasDefect t || hasDefectIn ts

end

variable (marked : Tree → Bool)

mutual

/-- The first defect of a tree that a search from the root finds.  Below a node it goes on with the
children that are marked or stand for a token that is lacking. -/
def search? : Tree → Option Tree
  | node l r s ts => if (node l r s ts).isDefect then some (node l r s ts) else searchIn? ts

/-- The first defect that the search finds in some trees. -/
def searchIn? : List Tree → Option Tree
  | [] => none
  | t :: ts => if marked t || t.isMissing then (search? t).or (searchIn? ts) else searchIn? ts

end

end Tree

end FlowAnalysis.Syntax
