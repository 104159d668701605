import FlowAnalysis.Syntax.Tree

/-!
# Walks over trees

A walk visits the nodes of a tree in reading order, a node before its children.  It carries a
context from a node to its children and may leave out what it does not want to see.

## Main definitions

* `Visit` — what a walk does at a node.
* `Tree.walkWith` — the nodes that a walk visits, each with its context.
* `Tree.walk`, `Tree.walkBelow` — walks without a context.
-/

namespace FlowAnalysis.Syntax

/-- What a walk does at a node. -/
inductive Visit
  /-- Takes the node and goes on to its children. -/
  | enter
  /-- Takes the node and leaves out its children. -/
  | keep
  /-- Leaves out the node and its children. -/
  | skip
  deriving DecidableEq, Repr

namespace Tree

variable {σ : Type}

mutual

/-- The nodes that a walk visits, each with its context; `down` finds the context of a child from
its parent, the context of the parent and the child. -/
def walkWith (down : Tree → σ → Tree → σ) (visit : σ → Tree → Visit) (s : σ) :
    Tree → List (Tree × σ)
  | node l r span ts =>
    match visit s (node l r span ts) with
    | .enter =>
      (node l r span ts, s) :: walkChildrenWith down visit (node l r span ts) s ts
    | .keep => [(node l r span ts, s)]
    | .skip => []

/-- The nodes that a walk visits below a node. -/
def walkChildrenWith (down : Tree → σ → Tree → σ) (visit : σ → Tree → Visit) (parent : Tree)
    (s : σ) : List Tree → List (Tree × σ)
  | [] => []
  | t :: ts =>
    walkWith down visit (down parent s t) t ++ walkChildrenWith down visit parent s ts

end

mutual

/-- The nodes that a walk visits. -/
def walk (visit : Tree → Visit) : Tree → List Tree
  | node l r span ts =>
    match visit (node l r span ts) with
    | .enter => node l r span ts :: walkChildren visit ts
    | .keep => [node l r span ts]
    | .skip => []

/-- The nodes that a walk visits in some trees. -/
def walkChildren (visit : Tree → Visit) : List Tree → List Tree
  | [] => []
  | t :: ts => walk visit t ++ walkChildren visit ts

end

/-- The nodes that a walk visits which enters the root whatever it is. -/
def walkBelow (visit : Tree → Visit) (t : Tree) : List Tree :=
  t :: walkChildren visit t.children

/-- Leaves out the nodes of a class. -/
def except (out : Tree → Bool) (t : Tree) : Visit := if out t then .skip else .enter

end Tree

end FlowAnalysis.Syntax
