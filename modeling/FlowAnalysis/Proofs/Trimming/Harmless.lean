import FlowAnalysis.Lint.Rule
import FlowAnalysis.Proofs.Trimming.Walk
import FlowAnalysis.Proofs.Written

/-!
# Wrappers without consequences

A check looks through wrappers, except where it looks at an expression as it is written.  A trimming
is harmless to a flow if it spares the places where this makes a difference.

## Main definitions

* `Tree.decEq` — equality of trees can be decided.
* `Flow.isMute` — whether no check finds anything at a node.
* `Tree.wrappers` — the wrappers around an expression.
* `Trimming.OpensSatisfies`, `Trimming.Harmless` — a trimming that takes off `satisfies`, and one
  that no check notices.

## Main results

* `Trimming.Harmless.deaf` — what stands beside an expression in its wrappers is not found.
-/

namespace FlowAnalysis

open Syntax Trimming

/-! ### Nodes at which nothing is found -/

/-- The kinds of loud nodes of which it depends on what they say whether anything is found. -/
def sayingKinds : List Kind :=
  [.callExpression, .memberExpression, .subscriptExpression, .string, .templateString]

/-- The kinds of the other loud nodes. -/
def strictKinds : List Kind := loudKinds.filter fun k => !sayingKinds.contains k

namespace Flow

/-- Whether a node is a text that may be a token: a template with substitutions is one. -/
def isSuspect (s : Source) (t : Tree) : Bool :=
  isText t && (t.isComposed || (secretProvider? (s.chars t)).isSome)

/-- Whether no check finds anything at a node. -/
def isMute (f : Flow) (t : Tree) : Bool :=
  !t.isAny strictKinds && !isSuspect f.source t && !f.isEnvironment t &&
    (f.calledOnThis? t).isNone && (f.dynamicCode? t).isNone &&
      (f.payload? f.typeEnv).all fun p => (f.reads (f.textOf p.pattern) t).isEmpty

/-- The text of a string, and of a template without substitutions, is read as it is written. -/
theorem isSpelled_of_isText {t : Tree} (h : isText t) (hcomposed : t.isComposed = false) :
    t.isSpelled := by
  obtain ⟨k, hk, hlabel⟩ := Tree.isAny_iff.1 h
  rcases List.mem_pair.1 hk with rfl | rfl
  · exact Bool.or_eq_true_iff.2 (.inl (Tree.isAny_iff.2 ⟨_, by decide, hlabel⟩))
  · rw [Tree.isComposed, Tree.is_iff.2 hlabel, Bool.true_and] at hcomposed
    rw [Tree.isSpelled, Tree.is_iff.2 hlabel, hcomposed]
    exact Bool.or_true _

variable {f : Flow} {t : Tree}

theorem isAny_of_isMute (h : f.isMute t) {ks : List Kind} (hks : ∀ k ∈ ks, k ∈ strictKinds) :
    t.isAny ks = false := by
  simp only [isMute, Bool.and_eq_true, Bool.not_eq_true'] at h
  exact Tree.isAny_eq_false_of_subset hks h.1.1.1.1.1

theorem isSuspect_of_isMute (h : f.isMute t) : isSuspect f.source t = false := by
  simp only [isMute, Bool.and_eq_true, Bool.not_eq_true'] at h
  exact h.1.1.1.1.2

theorem isEnvironment_of_isMute (h : f.isMute t) : f.isEnvironment t = false := by
  simp only [isMute, Bool.and_eq_true, Bool.not_eq_true'] at h
  exact h.1.1.1.2

theorem calledOnThis?_of_isMute (h : f.isMute t) : f.calledOnThis? t = none := by
  simp only [isMute, Bool.and_eq_true, Option.isNone_iff_eq_none] at h
  exact h.1.1.2

theorem dynamicCode?_of_isMute (h : f.isMute t) : f.dynamicCode? t = none := by
  simp only [isMute, Bool.and_eq_true, Option.isNone_iff_eq_none] at h
  exact h.1.2

theorem reads_of_isMute (h : f.isMute t) {p : Payload} (hp : f.payload? f.typeEnv = some p) :
    f.reads (f.textOf p.pattern) t = [] := by
  simp only [isMute, Bool.and_eq_true, hp, Option.all_some, List.isEmpty_iff] at h
  exact h.2

/-- What a class extends, if it is one of some classes. -/
def extended? (s : Source) (bases : List String) (t : Tree) : Option String :=
  ((extendsClause? t).bind (baseName? s)).filter bases.contains

end Flow

/-! ### Equality of trees -/

namespace Syntax

mutual

/-- Whether two trees are the same. -/
def Tree.decEq : (t u : Tree) → Decidable (t = u)
  | .node l r span ts, .node l' r' span' ts' =>
    have := Tree.decEqAll ts ts'
    decidable_of_iff (l = l' ∧ r = r' ∧ span = span' ∧ ts = ts') (by rw [Tree.node.injEq])

/-- Whether two lists of trees are the same. -/
def Tree.decEqAll : (ts us : List Tree) → Decidable (ts = us)
  | [], [] => isTrue rfl
  | [], u :: us => isFalse (List.cons_ne_nil u us).symm
  | t :: ts, [] => isFalse (List.cons_ne_nil t ts)
  | t :: ts, u :: us =>
    have := Tree.decEq t u
    have := Tree.decEqAll ts us
    decidable_of_iff (t = u ∧ ts = us) (by rw [List.cons.injEq])

end

instance : DecidableEq Tree := Tree.decEq

end Syntax

/-! ### Wrappers that are looked at -/

namespace Syntax

mutual

/-- The wrappers around an expression from the outside in, each with its parent. -/
def Tree.wrappers (p : Tree) : Tree → List (Tree × Tree)
  | .node l r span ts =>
    if (Tree.node l r span ts).isWrapper then
      (p, .node l r span ts) :: Tree.wrappersOfFirst (.node l r span ts) ts
    else []

/-- The same for the first of some nodes that counts. -/
def Tree.wrappersOfFirst (p : Tree) : List Tree → List (Tree × Tree)
  | [] => []
  | c :: cs => if c.isNamed && !c.is .comment then Tree.wrappers p c else Tree.wrappersOfFirst p cs

end

theorem Tree.wrappers_eq (p c : Tree) : Tree.wrappers p c =
    if c.isWrapper then (p, c) :: (c.firstNamed?.map (Tree.wrappers c)).getD [] else [] := by
  have hfirst : ∀ (p : Tree) (ts : List Tree), Tree.wrappersOfFirst p ts =
      (((ts.filter fun c => c.isNamed && !c.is .comment).head?).map (Tree.wrappers p)).getD [] := by
    intro p ts
    induction ts with
    | nil => rfl
    | cons t ts ih =>
      rw [Tree.wrappersOfFirst, List.filter_cons]
      split
      · rfl
      · exact ih
  obtain ⟨l, r, span, ts⟩ := c
  rw [Tree.wrappers, hfirst]
  rfl

/-- Whether some `satisfies` is taken off. -/
def Trimming.OpensSatisfies (P : Trimming) (s : Source) : Prop :=
  ∃ p ∈ s.root.nodes, ∃ c ∈ p.children, c.is .satisfiesExpression ∧ P.opens p c

/-- No check notices that wrappers are taken off. -/
structure Trimming.Harmless (P : Trimming) (config : Config) (f' f : Flow) : Prop where
  /-- Nothing is found beside the expressions in the wrappers. -/
  beside : ∀ p ∈ f.source.root.nodes, ∀ c ∈ p.children, P.opens p c →
    ∀ d ∈ Tree.besides c.children, ∀ n ∈ d.nodes, f.isMute n
  /-- The base of a class is looked at as it is written. -/
  bases : ∀ x ∈ P.pairs f'.source.root f.source.root,
    x.2.isAny [.classDeclaration, .classExpression] →
      Flow.extended? f'.source (Flow.baseNames config f.imports) x.1 =
        Flow.extended? f.source (Flow.baseNames config f.imports) x.2
  /-- So are the names of members, which may be computed. -/
  names : ∀ x ∈ P.pairs f'.source.root f.source.root, ∀ c ∈ f.flowClasses,
    ∀ m ∈ Flow.membersOf c.node, x.2 ∈ m.field? .name → f'.source.chars x.1 = f.source.chars x.2
  /-- So is what gets into messages. -/
  quoted : ∀ x ∈ P.pairs f'.source.root f.source.root, x.2 ∈ f.quoted →
    f'.source.chars x.1 = f.source.chars x.2
  /-- So are templates with substitutions, in which tokens are looked for. -/
  templates : ∀ x ∈ P.pairs f'.source.root f.source.root, x.2.isComposed → x.2 ∈ f.openTexts →
    secretProvider? (f'.source.chars x.1) = secretProvider? (f.source.chars x.2)
  /-- A function in the place of the body of a method is taken for its code. -/
  bodies : ∀ c ∈ f.flowClasses, ∀ m ∈ Flow.membersOf c.node, ∀ g ∈ Flow.functionOf? m,
    ∀ b ∈ g.field? .body, P.opens g b → (P.core g b).isFunctionLike = false
  /-- A name in the place of the variable of a loop is taken for one that the loop declares. -/
  loops : ∀ t ∈ f.source.root.nodes, t.is .forInStatement → ∀ v ∈ t.field? .left, P.opens t v →
    ∀ p ∈ f.payload? f.typeEnv, f.bindsName (f.textOf p.pattern) (some (P.core t v)) = false
  /-- Behind `satisfies`, single variables are not told from the environment as a whole. -/
  environment : ∀ p ∈ f.source.root.nodes, ∀ c ∈ p.children, f.isEnvironment c.bare →
    Flow.usedSingly p false c →
      (∃ w ∈ Tree.wrappers p c, w.2.is .satisfiesExpression ∧ P.opens w.1 w.2) →
        ∃ w ∈ Tree.wrappers p c, w.2.is .satisfiesExpression ∧ ¬ P.opens w.1 w.2
  /-- The environment is no type. -/
  types : P.OpensSatisfies f.source → ∀ p ∈ f.source.root.nodes, p.isWrapper →
    ∀ c ∈ Tree.besides p.children, f.isEnvironment c.bare = false

instance (P : Trimming) (s : Source) : Decidable (P.OpensSatisfies s) :=
  inferInstanceAs (Decidable (∃ p ∈ s.root.nodes, ∃ c ∈ p.children,
    c.is .satisfiesExpression ∧ P.opens p c))

set_option synthInstance.maxSize 512 in
instance (P : Trimming) (config : Config) (f' f : Flow) : Decidable (P.Harmless config f' f) :=
  decidable_of_iff (_ ∧ _ ∧ _ ∧ _ ∧ _ ∧ _ ∧ _ ∧ _ ∧ _)
    ⟨fun ⟨beside, bases, names, quoted, templates, bodies, loops, environment, types⟩ =>
      ⟨beside, bases, names, quoted, templates, bodies, loops, environment, types⟩,
    fun h => ⟨h.beside, h.bases, h.names, h.quoted, h.templates, h.bodies, h.loops, h.environment,
      h.types⟩⟩

namespace Trimming.Harmless

variable {P : Trimming} {config : Config} {f' f : Flow}

/-- What stands beside an expression in its wrappers is not found. -/
theorem deaf (hP : P.Harmless config f' f) {counts : Tree → Bool}
    (h : ∀ n, f.isMute n → counts n = false) : P.Deaf f.source counts :=
  fun p hp c hc hopens d hd n hn => h n (hP.beside p hp c hc hopens d hd n hn)

theorem deaf_isAny (hP : P.Harmless config f' f) {ks : List Kind}
    (hks : ∀ k ∈ ks, k ∈ strictKinds) : P.Deaf f.source (·.isAny ks) :=
  hP.deaf fun _ hn => Flow.isAny_of_isMute hn hks

end Trimming.Harmless

end Syntax

end FlowAnalysis
