import FlowAnalysis.Syntax.Kind
import FlowAnalysis.Text.Position

/-!
# Concrete syntax trees

A tree keeps every token of the text, comments included, and the range of characters that each
node covers.  Where a text does not follow the grammar, the tree says so in place: a stretch that
fits nowhere is an error node, and a token that the text lacks is a missing node of no width.

## Main definitions

* `Label` — what stands at a node: a rule of the grammar, a token, or a defect.
* `Tree` — a node with its role in the parent, its range and its children.
* `Tree.named`, `Tree.field?` — the children that analyses look at.
* `Tree.bare` — an expression without the wrappers that leave its value alone.
* `Tree.nodes` — all nodes of a tree in reading order.
-/

namespace FlowAnalysis.Syntax

/-- What stands at a node of a syntax tree. -/
inductive Label
  /-- A named node. -/
  | rule (kind : Kind)
  /-- A keyword or a punctuation mark. -/
  | token (text : String)
  /-- A token that the text lacks. -/
  | missing (what : String)
  /-- A stretch of text that fits nowhere. -/
  | error
  deriving DecidableEq, Repr, Inhabited

/-- A node of a concrete syntax tree. -/
inductive Tree
  | node (label : Label) (role : Option Role) (span : Span) (children : List Tree)
  deriving Repr

namespace Tree

instance : Inhabited Tree := ⟨.node .error none ⟨0, 0⟩ []⟩

/-- What stands at the node. -/
def label : Tree → Label
  | node l _ _ _ => l

/-- The part that the node plays in its parent. -/
def role : Tree → Option Role
  | node _ r _ _ => r

/-- The range of characters that the node covers. -/
def span : Tree → Span
  | node _ _ s _ => s

/-- The children of the node, tokens and comments included. -/
def children : Tree → List Tree
  | node _ _ _ ts => ts

@[simp] theorem label_node (l : Label) (r : Option Role) (s : Span) (ts : List Tree) :
    (node l r s ts).label = l := rfl

@[simp] theorem role_node (l : Label) (r : Option Role) (s : Span) (ts : List Tree) :
    (node l r s ts).role = r := rfl

@[simp] theorem span_node (l : Label) (r : Option Role) (s : Span) (ts : List Tree) :
    (node l r s ts).span = s := rfl

@[simp] theorem children_node (l : Label) (r : Option Role) (s : Span) (ts : List Tree) :
    (node l r s ts).children = ts := rfl

/-- The offset of the first character of the node. -/
def start (t : Tree) : Nat := t.span.start

/-- The offset just after the last character of the node. -/
def stop (t : Tree) : Nat := t.span.stop

/-- The same node in another role. -/
def withRole (t : Tree) (r : Option Role) : Tree :=
  node t.label r t.span t.children

/-- Whether the node is of the given kind. -/
def is (t : Tree) (k : Kind) : Bool := t.label = .rule k

/-- Whether the node is of one of the given kinds. -/
def isAny (t : Tree) (ks : List Kind) : Bool := ks.any t.is

/-- Whether the node is the given keyword or punctuation mark. -/
def isToken (t : Tree) (text : String) : Bool := t.label = .token text

/-- Whether the node is named, that is neither a keyword nor a punctuation mark. -/
def isNamed (t : Tree) : Bool :=
  match t.label with
  | .token _ => false
  | _ => true

/-- The named children of a node, comments left out. -/
def named (t : Tree) : List Tree :=
  t.children.filter fun c => c.isNamed && !c.is .comment

/-- The first child in the given role. -/
def field? (t : Tree) (r : Role) : Option Tree :=
  t.children.find? fun c => c.role = some r

/-- The first named child that is not a comment. -/
def firstNamed? (t : Tree) : Option Tree := t.named.head?

/-- The kinds of the wrappers that leave the value of an expression alone. -/
def wrapperKinds : List Kind :=
  [.parenthesizedExpression, .asExpression, .satisfiesExpression, .nonNullExpression]

/-- Whether the node is a wrapper that leaves the value of the expression inside it alone:
parentheses, a type assertion behind the expression, or `!`. -/
def isWrapper (t : Tree) : Bool := t.isAny wrapperKinds

mutual

/-- An expression without the wrappers around it. -/
def bare : Tree → Tree
  | node l r s ts =>
    if (node l r s ts).isWrapper then (bareFirst ts).getD (node l r s ts) else node l r s ts

/-- The first named child that is not a comment, without the wrappers around it. -/
def bareFirst : List Tree → Option Tree
  | [] => none
  | t :: ts => if t.isNamed && !t.is .comment then some (bare t) else bareFirst ts

end

mutual

/-- The nodes of a tree, a node before its children and those in their order. -/
def nodes : Tree → List Tree
  | node l r s ts => node l r s ts :: nodesOf ts

/-- The nodes of some trees in reading order. -/
def nodesOf : List Tree → List Tree
  | [] => []
  | t :: ts => nodes t ++ nodesOf ts

end

/-- The kinds that open the scope of a function or of a class. -/
def functionKinds : List Kind :=
  [.arrowFunction, .functionExpression, .functionDeclaration, .generatorFunction,
   .generatorFunctionDeclaration, .methodDefinition, .classExpression, .classDeclaration]

/-- Whether the node opens the scope of a function or of a class. -/
def isFunctionLike (t : Tree) : Bool := t.isAny functionKinds

end Tree

end FlowAnalysis.Syntax
