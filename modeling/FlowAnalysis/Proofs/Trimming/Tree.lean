import FlowAnalysis.Proofs.Related
import FlowAnalysis.Proofs.Syntax.Lockstep
import FlowAnalysis.Flow.Literal

/-!
# Trimmed sources

A source is trimmed by taking off some of the wrappers around its expressions: where one is taken
off, the expression inside it stands in its place.  The two sources have texts of their own, so what
stands behind a wrapper stands elsewhere in the trimmed text.  Their trees are compared node by node,
and so are the texts that make a difference as they are written; comments are left out of this.

## Main definitions

* `Tree.isRemark`, `Tree.mayOpen` — the comments, and the wrappers that may be taken off.
* `Trimming` — a choice among the wrappers.
* `Trimming.pairs`, `Trimming.Trims` — a source is another one, trimmed.
* `Trimming.Matches`, `Trimming.Part` — a node stands in the place of another one.

## Main results

* `Trimming.Matches.forall₂_parts`, `Trimming.Matches.rel_field?` — what analyses look at in a
  trimmed source.
* `Trimming.Matches.bare` — expressions without their wrappers.
-/

namespace FlowAnalysis.Syntax

/-! ### What may be taken off -/

/-- The kinds of nodes at which some check may find something, wherever they stand. -/
def loudKinds : List Kind :=
  Tree.functionKinds ++
    [.importSpecifier, .interfaceDeclaration, .typeAliasDeclaration, .variableDeclarator,
     .statementBlock, .switchBody, .ifStatement, .forStatement, .forInStatement, .whileStatement,
     .doStatement, .switchCase, .catchClause, .throwStatement, .ternaryExpression,
     .binaryExpression, .newExpression, .callExpression, .memberExpression, .subscriptExpression,
     .string, .templateString]

/-- The kinds of expressions. -/
def expressionKinds : List Kind :=
  Tree.wrapperKinds ++
    [.sequenceExpression, .assignmentExpression, .augmentedAssignmentExpression, .ternaryExpression,
     .binaryExpression, .unaryExpression, .updateExpression, .awaitExpression, .yieldExpression,
     .newExpression, .callExpression, .memberExpression, .subscriptExpression, .typeAssertion,
     .instantiationExpression, .metaProperty, .arrowFunction, .functionExpression,
     .generatorFunction, .classExpression, .object, .array, .this, .super, .identifier, .string,
     .templateString, .number, .regex, .trueLiteral, .falseLiteral, .nullLiteral, .undefined]

/-- The roles in which no expression stands. -/
def closedRoles : List Role :=
  [.name, .alias, .source, .parameters, .parameter, .pattern, .type, .typeArguments, .key,
   .property, .operator, .arguments]

/-- The kinds of nodes whose text makes a difference as it is written. -/
def spelledKinds : List Kind :=
  [.identifier, .propertyIdentifier, .privatePropertyIdentifier, .shorthandPropertyIdentifier,
   .shorthandPropertyIdentifierPattern, .typeIdentifier, .predefinedType, .string, .number]

namespace Tree

/-- Whether no expression stands in a role below a node. -/
def isClosedAt (p : Tree) (r : Option Role) : Bool :=
  closedRoles.any (fun role => r = some role) ||
    [Role.parameters, .type, .typeArguments].any (fun role => p.role = some role) ||
    p.isAny [.literalType, .typeArguments] || p.is .objectAssignmentPattern && r = some .left ||
      p.isAny [.classDeclaration, .classExpression, .interfaceDeclaration] && r = some .body

/-- Whether no check finds anything in a tree, wherever it stands. -/
def isQuiet (t : Tree) : Bool := t.nodes.all fun n => !n.isAny loudKinds

/-- Whether the node is a comment that plays no part. -/
def isRemark (t : Tree) : Bool := t.is .comment && t.role.isNone && t.isQuiet

/-- Some trees without the first of them that counts. -/
def besides : List Tree → List Tree
  | [] => []
  | t :: ts => if t.isNamed && !t.is .comment then ts else t :: besides ts

/-- Whether a child is a wrapper around an expression, where an expression may stand. -/
def mayOpen (p c : Tree) : Bool :=
  c.isWrapper && !p.isClosedAt c.role && c.firstNamed?.any (·.isAny expressionKinds)

/-- Whether the node is a template with substitutions. -/
def isComposed (t : Tree) : Bool :=
  t.is .templateString && t.children.any (·.is .templateSubstitution)

/-- Whether the text of a node makes a difference as it is written. -/
def isSpelled (t : Tree) : Bool :=
  t.isAny spelledKinds || t.is .templateString && !t.children.any (·.is .templateSubstitution)

/-- Whether a node looks at the text of a child as it is written. -/
def spells (p c : Tree) : Bool :=
  p.isAny [.importSpecifier, .literalType] || c.role = some .property ||
    p.isAny [.genericType, .interfaceDeclaration, .typeAliasDeclaration] && c.role = some .name

end Tree

/-- A choice among the wrappers. -/
structure Trimming where
  /-- Whether a wrapper is taken off, where its parent is given first. -/
  opens : Tree → Tree → Bool
  mayOpen_of_opens : ∀ {p c : Tree}, opens p c → p.mayOpen c

namespace Trimming

/-- The children of a node that are no remarks. -/
def parts (t : Tree) : List Tree := t.children.filter fun c => !c.isRemark

variable (P : Trimming)

mutual

/-- The expression inside a wrapper, without those of the wrappers around it that are taken off. -/
def inside : Tree → Tree
  | .node l r span ts => insideOf (.node l r span ts) ts

/-- The first of the children of a wrapper that counts, without the wrappers around it. -/
def insideOf (w : Tree) : List Tree → Tree
  | [] => w
  | c :: cs =>
    if c.isNamed && !c.is .comment then if P.opens w c then inside c else c else insideOf w cs

end

/-- What is left of a child of a node. -/
def core (p c : Tree) : Tree := if P.opens p c then P.inside c else c

mutual

/-- The nodes of a tree that are left, each with the node in its place in the trimmed tree. -/
def pairs (u : Tree) : Tree → List (Tree × Tree)
  | .node l r span ts => (u, .node l r span ts) :: pairsBelow (.node l r span ts) (parts u) ts
termination_by structural t => t

/-- The same below a node that is given with the parts of the node in its place. -/
def pairsBelow (p : Tree) (us : List Tree) : List Tree → List (Tree × Tree)
  | [] => []
  | c :: cs =>
    if c.isRemark then pairsBelow p us cs
    else
      match us with
      | [] => []
      | u :: us => (if P.opens p c then pairsInside u c else pairs u c) ++ pairsBelow p us cs
termination_by structural ts => ts

/-- The same inside a wrapper that is taken off. -/
def pairsInside (u : Tree) : Tree → List (Tree × Tree)
  | .node l r span ts => pairsFirst u (.node l r span ts) ts
termination_by structural t => t

/-- The same inside the first of the children of a wrapper that counts. -/
def pairsFirst (u w : Tree) : List Tree → List (Tree × Tree)
  | [] => []
  | c :: cs =>
    if c.isNamed && !c.is .comment then if P.opens w c then pairsInside u c else pairs u c
    else pairsFirst u w cs
termination_by structural ts => ts

end

/-- What a node keeps when a source is trimmed. -/
structure Keeps (s' s : Source) (u t : Tree) : Prop where
  label : u.label = t.label
  chars : t.isSpelled → s'.chars u = s.chars t
  parts : List.Forall₂ (fun v c => v.role = c.role ∧ (t.spells c → s'.chars v = s.chars c))
    (parts u) (parts t)

instance (s' s : Source) (u t : Tree) : Decidable (Keeps s' s u t) :=
  decidable_of_iff (u.label = t.label ∧ (t.isSpelled → s'.chars u = s.chars t) ∧ List.Forall₂
      (fun v c => v.role = c.role ∧ (t.spells c → s'.chars v = s.chars c))
      (Trimming.parts u) (Trimming.parts t))
    ⟨fun h => ⟨h.1, h.2.1, h.2.2⟩, fun h => ⟨h.1, h.2, h.3⟩⟩

/-- A source is another one without some of the wrappers in it. -/
def Trims (s' s : Source) : Prop := ∀ x ∈ P.pairs s'.root s.root, Keeps s' s x.1 x.2

instance (s' s : Source) : Decidable (P.Trims s' s) :=
  inferInstanceAs (Decidable (∀ x ∈ P.pairs s'.root s.root, Keeps s' s x.1 x.2))

end Trimming

/-! ### Roles -/

namespace Tree

theorem isAny_singleton (t : Tree) (k : Kind) : t.isAny [k] = t.is k := Bool.or_false _

theorem isAny_eq_false_of_subset {t : Tree} {ks ks' : List Kind} (h : ∀ k ∈ ks, k ∈ ks')
    (ht : t.isAny ks' = false) : t.isAny ks = false := by
  rw [Bool.eq_false_iff] at ht ⊢
  intro hks
  obtain ⟨k, hk, hlabel⟩ := isAny_iff.1 hks
  exact ht (isAny_iff.2 ⟨k, h k hk, hlabel⟩)

theorem isNamed_of_isAny {t : Tree} {ks : List Kind} (h : t.isAny ks) : t.isNamed := by
  obtain ⟨k, -, hlabel⟩ := isAny_iff.1 h
  rw [isNamed, hlabel]

theorem is_eq_false_of_isAny {t : Tree} {k : Kind} {ks : List Kind} (hk : k ∉ ks)
    (h : t.isAny ks) : t.is k = false := by
  obtain ⟨k', hk', hlabel⟩ := isAny_iff.1 h
  exact is_eq_false_of hlabel fun heq => hk (heq ▸ hk')

end Tree

namespace Trimming

variable {P : Trimming} {s' s : Source} {p c e t u v : Tree} {ts : List Tree} {r : Role}

/-! ### Remarks -/

theorem label_of_isRemark (h : c.isRemark) : c.label = .rule .comment := by
  simp only [Tree.isRemark, Bool.and_eq_true] at h
  exact Tree.is_iff.1 h.1.1

theorem role_of_isRemark (h : c.isRemark) : c.role = none := by
  simp only [Tree.isRemark, Bool.and_eq_true, Option.isNone_iff_eq_none] at h
  exact h.1.2

theorem isQuiet_of_isRemark (h : c.isRemark) : c.isQuiet := by
  rw [Tree.isRemark, Bool.and_eq_true] at h
  exact h.2

theorem mem_parts : c ∈ parts t ↔ c ∈ t.children ∧ c.isRemark = false := by
  simp [parts]

/-- What does not find remarks finds in the parts of a node what it finds in its children. -/
theorem filter_parts {q : Tree → Bool} (hq : ∀ c, c.isRemark → q c = false) (t : Tree) :
    (parts t).filter q = t.children.filter q := by
  rw [parts, List.filter_filter]
  congr 1
  funext c
  cases hc : c.isRemark with
  | false => simp
  | true => simp [hq c hc]

theorem find?_parts {q : Tree → Bool} (hq : ∀ c, c.isRemark → q c = false) (t : Tree) :
    (parts t).find? q = t.children.find? q := by
  rw [← List.head?_filter, ← List.head?_filter, filter_parts hq]

theorem any_parts {q : Tree → Bool} (hq : ∀ c, c.isRemark → q c = false) (t : Tree) :
    (parts t).any q = t.children.any q := by
  rw [parts, List.any_filter]
  congr 1
  funext c
  cases hc : c.isRemark with
  | false => simp
  | true => simp [hq c hc]

theorem flatMap_parts {β : Type} {F : Tree → List β} (hF : ∀ c, c.isRemark → F c = []) (t : Tree) :
    (parts t).flatMap F = t.children.flatMap F := by
  rw [parts]
  induction t.children with
  | nil => rfl
  | cons c cs ih =>
    rw [List.flatMap_cons, ← ih, List.filter_cons]
    split
    · rw [List.flatMap_cons]
    · next hc => rw [hF c (by simpa using hc), List.nil_append]

/-! ### What is left of a child -/

/-- A wrapper that is taken off, and the expression inside it. -/
structure Opened (P : Trimming) (p c e : Tree) : Prop where
  opens : P.opens p c
  isWrapper : c.isWrapper
  isOpen : p.isClosedAt c.role = false
  first : c.firstNamed? = some e
  expression : e.isAny expressionKinds

theorem exists_opened (h : P.opens p c) : ∃ e, P.Opened p c e := by
  have hmay := P.mayOpen_of_opens h
  simp only [Tree.mayOpen, Bool.and_eq_true, Bool.not_eq_true', Option.any_eq_true] at hmay
  obtain ⟨⟨hwrapper, hopen⟩, e, hfirst, hexpression⟩ := hmay
  exact ⟨e, h, hwrapper, hopen, hfirst, hexpression⟩

namespace Opened

variable (h : P.Opened p c e)

include h

theorem mem_children : e ∈ c.children :=
  Tree.mem_children_of_named (List.mem_of_head? h.first)

theorem isAny_expressionKinds : c.isAny expressionKinds := by
  obtain ⟨k, hk, hlabel⟩ := Tree.isAny_iff.1 h.isWrapper
  exact Tree.isAny_iff.2 ⟨k, List.mem_append_left _ hk, hlabel⟩

/-- No wrapper is loud. -/
theorem isAny_loudKinds : c.isAny loudKinds = false := by
  obtain ⟨k, hk, hlabel⟩ := Tree.isAny_iff.1 h.isWrapper
  have hquiet : ∀ k ∈ Tree.wrapperKinds, k ∉ loudKinds := by decide
  rw [Bool.eq_false_iff]
  intro hloud
  obtain ⟨k', hk', hlabel'⟩ := Tree.isAny_iff.1 hloud
  obtain rfl := Label.rule.inj (hlabel.symm.trans hlabel')
  exact hquiet k hk hk'

theorem inside_eq : P.inside c = P.core c e := by
  -- The recursion looks for the first child that counts by itself.
  have hinsideOf : ∀ (w : Tree) (ts : List Tree),
      (ts.filter fun c => c.isNamed && !c.is .comment).head? = some e →
        P.insideOf w ts = P.core w e := by
    intro w ts
    induction ts with
    | nil => simp
    | cons t ts ih =>
      intro hfirst
      rw [List.filter_cons] at hfirst
      rw [insideOf]
      split at hfirst
      · next ht =>
        obtain rfl : t = e := by simpa using hfirst
        rw [if_pos ht]
        rfl
      · next ht => rw [if_neg ht, ih hfirst]
  have hfirst := h.first
  obtain ⟨l, r, span, ts⟩ := c
  rw [inside]
  exact hinsideOf _ ts hfirst

theorem core_eq : P.core p c = P.core c e := by rw [core, if_pos h.opens, h.inside_eq]

theorem pairsInside_eq (u : Tree) : P.pairsInside u c =
    if P.opens c e then P.pairsInside u e else P.pairs u e := by
  have hpairsFirst : ∀ (w : Tree) (ts : List Tree),
      (ts.filter fun c => c.isNamed && !c.is .comment).head? = some e →
        P.pairsFirst u w ts = if P.opens w e then P.pairsInside u e else P.pairs u e := by
    intro w ts
    induction ts with
    | nil => simp
    | cons t ts ih =>
      intro hfirst
      rw [List.filter_cons] at hfirst
      rw [pairsFirst]
      split at hfirst
      · next ht =>
        obtain rfl : t = e := by simpa using hfirst
        rw [if_pos ht]
      · next ht => rw [if_neg ht, ih hfirst]
  have hfirst := h.first
  obtain ⟨l, r, span, ts⟩ := c
  rw [pairsInside]
  exact hpairsFirst _ ts hfirst

theorem bare_eq : c.bare = e.bare := by
  rw [Tree.bare_eq, if_pos h.isWrapper, h.first]
  rfl

end Opened

theorem core_of_not_opens (h : ¬ P.opens p c) : P.core p c = c := if_neg h

theorem core_of_isClosedAt (h : p.isClosedAt c.role) : P.core p c = c := by
  refine core_of_not_opens fun hopens => ?_
  obtain ⟨e, he⟩ := exists_opened hopens
  simp [he.isOpen] at h

/-- Only wrappers are taken off. -/
theorem core_of_label {k : Kind} (h : c.label = .rule k) (hk : k ∉ Tree.wrapperKinds) :
    P.core p c = c := by
  refine core_of_not_opens fun hopens => ?_
  obtain ⟨e, he⟩ := exists_opened hopens
  obtain ⟨k', hk', hlabel⟩ := Tree.isAny_iff.1 he.isWrapper
  exact hk (Label.rule.inj (h.symm.trans hlabel) ▸ hk')

/-- What holds of what is left, whether or not a wrapper is taken off.  The wrappers are gone through
one by one, from the outermost one to the innermost. -/
theorem core_induction {motive : Tree → Tree → Prop} (keep : ∀ p c, ¬ P.opens p c → motive p c)
    (opened : ∀ p c e, P.Opened p c e → motive c e → motive p c) (p c : Tree) : motive p c := by
  induction c using Tree.induction generalizing p with
  | node l r span ts ih =>
    by_cases hopens : P.opens p (.node l r span ts)
    · obtain ⟨e, he⟩ := exists_opened hopens
      exact opened p _ e he (ih e he.mem_children _)
    · exact keep p _ hopens

theorem core_mem_nodes (p c : Tree) : P.core p c ∈ c.nodes := by
  induction p, c using core_induction (P := P) with
  | keep p c h =>
    rw [core_of_not_opens h]
    exact Tree.self_mem_nodes c
  | opened p c e h ih =>
    rw [h.core_eq]
    exact Tree.nodes_subset h.mem_children _ ih

theorem bare_core (p c : Tree) : (P.core p c).bare = c.bare := by
  induction p, c using core_induction (P := P) with
  | keep p c h => rw [core_of_not_opens h]
  | opened p c e h ih => rw [h.core_eq, ih, h.bare_eq]

/-- What takes the place of a wrapper is an expression. -/
theorem isAny_expressionKinds_core (h : P.opens p c) : (P.core p c).isAny expressionKinds := by
  induction p, c using core_induction (P := P) with
  | keep p c hnot => exact absurd h hnot
  | opened p c e he ih =>
    rw [he.core_eq]
    by_cases hopens : P.opens c e
    · exact ih hopens
    · rw [core_of_not_opens hopens]
      exact he.expression

/-- A child is left as it is, or it is an expression before and afterwards. -/
theorem core_cases (p c : Tree) :
    P.core p c = c ∨ c.isAny expressionKinds ∧ (P.core p c).isAny expressionKinds := by
  by_cases h : P.opens p c
  · obtain ⟨e, he⟩ := exists_opened h
    exact .inr ⟨he.isAny_expressionKinds, isAny_expressionKinds_core h⟩
  · exact .inl (core_of_not_opens h)

/-- Whether a child is of a kind other than those of expressions does not change. -/
theorem is_core {k : Kind} (hk : k ∉ expressionKinds) (p c : Tree) :
    (P.core p c).is k = c.is k := by
  rcases core_cases (P := P) p c with h | ⟨hc, hcore⟩
  · rw [h]
  · rw [Tree.is_eq_false_of_isAny hk hc, Tree.is_eq_false_of_isAny hk hcore]

theorem isNamed_core (p c : Tree) : (P.core p c).isNamed = c.isNamed := by
  rcases core_cases (P := P) p c with h | ⟨hc, hcore⟩
  · rw [h]
  · rw [Tree.isNamed_of_isAny hc, Tree.isNamed_of_isAny hcore]

theorem isToken_core (p c : Tree) (text : String) :
    (P.core p c).isToken text = c.isToken text := by
  have hnot : ∀ t : Tree, t.isAny expressionKinds → t.isToken text = false := by
    intro t ht
    obtain ⟨k, -, hlabel⟩ := Tree.isAny_iff.1 ht
    simp [Tree.isToken, hlabel]
  rcases core_cases (P := P) p c with h | ⟨hc, hcore⟩
  · rw [h]
  · rw [hnot _ hc, hnot _ hcore]

/-! ### Pairs -/

theorem pairs_eq (u t : Tree) : P.pairs u t =
    (u, t) :: ((parts u).zip (parts t)).flatMap fun x => P.pairs x.1 (P.core t x.2) := by
  -- Wrapper by wrapper, what is taken off is passed over.
  have hpart : ∀ u p c, (if P.opens p c then P.pairsInside u c else P.pairs u c) =
      P.pairs u (P.core p c) := by
    intro u p c
    induction p, c using core_induction (P := P) with
    | keep p c h => rw [if_neg h, core_of_not_opens h]
    | opened p c e h ih => rw [if_pos h.opens, h.pairsInside_eq, h.core_eq, ih]
  -- The nodes on the left have been rid of remarks; those on the right lose them on the way.
  have hbelow : ∀ (p : Tree) (us ts : List Tree), P.pairsBelow p us ts =
      (us.zip (ts.filter fun c => !c.isRemark)).flatMap fun x => P.pairs x.1 (P.core p x.2) := by
    intro p us ts
    induction ts generalizing us with
    | nil => simp [pairsBelow]
    | cons c cs ih =>
      rw [List.filter_cons]
      cases us with
      | nil => cases hc : c.isRemark <;> simp [pairsBelow, hc, ih]
      | cons u us => cases hc : c.isRemark <;> simp [pairsBelow, hc, ih, hpart]
  obtain ⟨l, r, span, ts⟩ := t
  rw [pairs, hbelow]
  rfl

theorem lockstep (P : Trimming) :
    Tree.Lockstep parts (fun t x => (x.1, P.core t x.2)) P.pairs where
  eq := pairs_eq
  parts _ := List.filter_sublist
  next t x := ⟨Tree.self_mem_nodes x.1, core_mem_nodes t x.2⟩

/-! ### Nodes of trimmed sources -/

/-- A node of a trimmed source stands in the place of a node of the source. -/
structure Matches (P : Trimming) (s' s : Source) (u t : Tree) : Prop where
  trims : P.Trims s' s
  mem : (u, t) ∈ P.pairs s'.root s.root

/-- A child of a node of a trimmed source stands in the place of a child, or of what is left of
it. -/
def Part (P : Trimming) (s' s : Source) (p v c : Tree) : Prop :=
  ∃ u, P.Matches s' s u p ∧ (v, c) ∈ (parts u).zip (parts p)

theorem Trims.root (h : P.Trims s' s) : P.Matches s' s s'.root s.root :=
  ⟨h, P.lockstep.mem_self _ _⟩

namespace Part

variable (h : P.Part s' s p v c)

include h

theorem mem : c ∈ p.children := by
  obtain ⟨u, -, hzip⟩ := h
  exact (mem_parts.1 (List.of_mem_zip hzip).2).1

theorem role_and_chars : v.role = c.role ∧ (p.spells c → s'.chars v = s.chars c) := by
  obtain ⟨u, hu, hzip⟩ := h
  exact (List.forall₂_iff_zip.1 (hu.trims _ hu.mem).parts).2 hzip

theorem role : v.role = c.role := h.role_and_chars.1

theorem chars (hspells : p.spells c) : s'.chars v = s.chars c := h.role_and_chars.2 hspells

theorem core : P.Matches s' s v (P.core p c) := by
  obtain ⟨u, hu, hzip⟩ := h
  refine ⟨hu.trims, P.lockstep.pairs_subset hu.mem ?_⟩
  rw [pairs_eq]
  exact List.mem_cons_of_mem _ (List.mem_flatMap.2 ⟨_, hzip, P.lockstep.mem_self _ _⟩)

theorem label_core : v.label = (P.core p c).label := (h.core.trims _ h.core.mem).label

theorem is_eq {k : Kind} (hk : k ∉ expressionKinds) : v.is k = c.is k := by
  rw [← is_core hk p c (P := P), Tree.is, Tree.is, h.label_core]

theorem isNamed_eq : v.isNamed = c.isNamed := by
  rw [← isNamed_core p c (P := P), Tree.isNamed, Tree.isNamed, h.label_core]

theorem isToken_eq (text : String) : v.isToken text = c.isToken text := by
  rw [← isToken_core p c text (P := P), Tree.isToken, Tree.isToken, h.label_core]

/-- What stands in the place of a child matches it, or both are expressions. -/
theorem matches_or_expressions :
    P.Matches s' s v c ∨ v.isAny expressionKinds ∧ c.isAny expressionKinds := by
  have hmatches := h.core
  rcases core_cases (P := P) p c with hsame | ⟨hc, hcore⟩
  · rw [hsame] at hmatches
    exact .inl hmatches
  · refine .inr ⟨?_, hc⟩
    obtain ⟨k, hk, hlabel⟩ := Tree.isAny_iff.1 hcore
    exact Tree.isAny_iff.2 ⟨k, hk, h.label_core.trans hlabel⟩

theorem of_isClosedAt (hclosed : p.isClosedAt c.role) : P.Matches s' s v c := by
  have hcore := h.core
  rwa [core_of_isClosedAt hclosed] at hcore

/-- A child of a kind other than those of expressions is no wrapper to be taken off. -/
theorem of_is {k : Kind} (hk : k ∉ expressionKinds) (hc : c.is k) : P.Matches s' s v c := by
  have hcore := h.core
  rwa [core_of_label (Tree.is_iff.1 hc) fun hmem => hk (List.mem_append_left _ hmem)] at hcore

end Part

namespace Matches

section

variable (h : P.Matches s' s u t)

include h

theorem keeps : Keeps s' s u t := h.trims _ h.mem

theorem label : u.label = t.label := h.keeps.label

theorem is_eq (k : Kind) : u.is k = t.is k := by rw [Tree.is, Tree.is, h.label]

theorem isAny_eq (ks : List Kind) : u.isAny ks = t.isAny ks := by
  simp only [Tree.isAny, funext h.is_eq]

theorem isToken_eq (text : String) : u.isToken text = t.isToken text := by
  rw [Tree.isToken, Tree.isToken, h.label]

theorem isWrapper_eq : u.isWrapper = t.isWrapper := h.isAny_eq _

theorem isFunctionLike_eq : u.isFunctionLike = t.isFunctionLike := h.isAny_eq _

theorem mem_nodes : t ∈ s.root.nodes := (P.lockstep.mem_nodes h.mem).2

theorem mem_nodes' : u ∈ s'.root.nodes := (P.lockstep.mem_nodes h.mem).1

/-! ### Children -/

/-- **The children of a trimmed node** stand in the places of what is left of the children. -/
theorem forall₂_parts : List.Forall₂ (P.Part s' s t) (parts u) (parts t) :=
  List.forall₂_iff_zip.2 ⟨h.keeps.parts.length_eq, fun hc => ⟨u, h, hc⟩⟩

theorem forall₂_named : List.Forall₂ (P.Part s' s t) u.named t.named := by
  have hremark : ∀ c : Tree, c.isRemark → (c.isNamed && !c.is .comment) = false := by
    intro c hc
    simp [Tree.is, label_of_isRemark hc]
  rw [Tree.named, Tree.named, ← filter_parts hremark, ← filter_parts hremark]
  exact h.forall₂_parts.filter fun v c hc => by rw [hc.isNamed_eq, hc.is_eq (by decide)]

theorem rel_field? (r : Role) :
    Option.Rel (fun v c => P.Part s' s t v c ∧ c.role = some r) (u.field? r) (t.field? r) := by
  have hremark : ∀ c : Tree, c.isRemark → decide (c.role = some r) = false := by
    intro c hc
    simp [role_of_isRemark hc]
  rw [Tree.field?, Tree.field?, ← find?_parts hremark, ← find?_parts hremark]
  exact (h.forall₂_parts.find? fun v c hc => by rw [hc.role]).imp_of_eq fun v c hc hpart =>
    ⟨hpart, by simpa using List.find?_some hc⟩

theorem rel_firstNamed? : Option.Rel (P.Part s' s t) u.firstNamed? t.firstNamed? :=
  h.forall₂_named.head?

/-- Where no expression stands, nothing is taken off. -/
theorem rel_field?_of_isClosedAt (hclosed : t.isClosedAt (some r)) :
    Option.Rel (P.Matches s' s) (u.field? r) (t.field? r) :=
  (h.rel_field? r).imp fun _ _ hc => hc.1.of_isClosedAt (hc.2 ▸ hclosed)

theorem rel_field?_of_mem (hr : r ∈ closedRoles) :
    Option.Rel (P.Matches s' s) (u.field? r) (t.field? r) :=
  h.rel_field?_of_isClosedAt (by simp [Tree.isClosedAt, hr])

theorem forall₂_named_of_isClosedAt (hclosed : ∀ r, t.isClosedAt r) :
    List.Forall₂ (P.Matches s' s) u.named t.named :=
  h.forall₂_named.imp fun _ _ hc => hc.of_isClosedAt (hclosed _)

theorem rel_firstNamed?_of_isClosedAt (hclosed : ∀ r, t.isClosedAt r) :
    Option.Rel (P.Matches s' s) u.firstNamed? t.firstNamed? :=
  (h.forall₂_named_of_isClosedAt hclosed).head?

theorem forall₂_named_filter {k : Kind} (hk : k ∉ expressionKinds) :
    List.Forall₂ (fun u t => P.Matches s' s u t ∧ t.is k) (u.named.filter (·.is k))
      (t.named.filter (·.is k)) :=
  (h.forall₂_named.filter fun _ _ hc => hc.is_eq hk).imp_of_mem fun _ _ hmem hc =>
    ⟨hc.of_is hk (List.mem_filter.1 hmem).2, (List.mem_filter.1 hmem).2⟩

theorem rel_find?_named {k : Kind} (hk : k ∉ expressionKinds) :
    Option.Rel (fun u t => P.Matches s' s u t ∧ t.is k) (u.named.find? (·.is k))
      (t.named.find? (·.is k)) := by
  rw [← List.head?_filter, ← List.head?_filter]
  exact (h.forall₂_named_filter hk).head?

theorem any_is_children {k : Kind} (hk : k ∉ expressionKinds) (hcomment : k ≠ .comment) :
    u.children.any (·.is k) = t.children.any (·.is k) := by
  have hremark : ∀ c : Tree, c.isRemark → c.is k = false := fun c hc =>
    Tree.is_eq_false_of (label_of_isRemark hc) hcomment.symm
  rw [← any_parts hremark, ← any_parts hremark]
  exact h.forall₂_parts.any_eq fun _ _ hc => hc.is_eq hk

theorem any_isToken_children (text : String) :
    u.children.any (·.isToken text) = t.children.any (·.isToken text) := by
  have hremark : ∀ c : Tree, c.isRemark → c.isToken text = false := by
    intro c hc
    simp [Tree.isToken, label_of_isRemark hc]
  rw [← any_parts hremark, ← any_parts hremark]
  exact h.forall₂_parts.any_eq fun _ _ hc => hc.isToken_eq text

/-! ### Texts -/

theorem chars (ht : t.isSpelled) : s'.chars u = s.chars t := h.keeps.chars ht

theorem chars_of_isAny {ks : List Kind} (ht : t.isAny ks) (hks : ∀ k ∈ ks, k ∈ spelledKinds) :
    s'.chars u = s.chars t := by
  obtain ⟨k, hk, hlabel⟩ := Tree.isAny_iff.1 ht
  refine h.chars (Bool.or_eq_true_iff.2 (.inl ?_))
  exact Tree.isAny_iff.2 ⟨k, hks k hk, hlabel⟩

theorem chars_of_is {k : Kind} (ht : t.is k) (hk : k ∈ spelledKinds) : s'.chars u = s.chars t :=
  h.chars (Bool.or_eq_true_iff.2 (.inl (Tree.isAny_iff.2 ⟨k, hk, Tree.is_iff.1 ht⟩)))

theorem textOf_of_isAny {ks : List Kind} (ht : t.isAny ks) (hks : ∀ k ∈ ks, k ∈ spelledKinds) :
    s'.textOf u = s.textOf t := congrArg String.ofList (h.chars_of_isAny ht hks)

theorem textOf_of_is {k : Kind} (ht : t.is k) (hk : k ∈ spelledKinds) :
    s'.textOf u = s.textOf t := congrArg String.ofList (h.chars_of_is ht hk)

theorem isComposed_eq : u.isComposed = t.isComposed := by
  rw [Tree.isComposed, Tree.isComposed, h.is_eq, h.any_is_children (by decide) (by decide)]

theorem stringValue? : s'.stringValue? u = s.stringValue? t := by
  have hnone : ∀ (s : Source) (t : Tree), (t.is .string ||
      t.is .templateString && !t.children.any (·.is .templateSubstitution)) = false →
      s.stringValue? t = none := by
    intro s t ht
    simp only [Source.stringValue?, ht, Bool.false_eq_true, if_false, ite_self]
  have hkind : (u.is .string ||
      u.is .templateString && !u.children.any (·.is .templateSubstitution)) =
      (t.is .string || t.is .templateString && !t.children.any (·.is .templateSubstitution)) := by
    rw [h.is_eq, h.is_eq, h.any_is_children (by decide) (by decide)]
  cases hvalue : t.is .string || t.is .templateString &&
      !t.children.any (·.is .templateSubstitution) with
  | false => rw [hnone s' u (hkind.trans hvalue), hnone s t hvalue]
  | true =>
    have hchars : s'.chars u = s.chars t := by
      rcases Bool.or_eq_true_iff.1 hvalue with hstring | htemplate
      · exact h.chars_of_is hstring (by decide)
      · exact h.chars (Bool.or_eq_true_iff.2 (.inr htemplate))
    simp only [Source.stringValue?, hchars, hkind]

theorem propertyName? : s'.propertyName? u = s.propertyName? t := by
  unfold Source.propertyName?
  rw [h.isAny_eq, h.is_eq, h.stringValue?]
  split
  · next hname => rw [h.textOf_of_isAny hname (by decide)]
  · rfl

/-- The text of a name behind a dot. -/
theorem rel_property : Option.Rel
    (fun v c => P.Matches s' s v c ∧ s'.textOf v = s.textOf c) (u.field? .property)
      (t.field? .property) :=
  (h.rel_field? .property).imp fun v c hc =>
    ⟨hc.1.of_isClosedAt (by simp [Tree.isClosedAt, hc.2, closedRoles]),
      congrArg String.ofList (hc.1.chars (by simp [Tree.spells, hc.2]))⟩

end

/-! ### Wrappers -/

/-- **Expressions without their wrappers** stand in the same places. -/
theorem bare (h : P.Matches s' s u t) : P.Matches s' s u.bare t.bare := by
  -- The trimmed expression may have fewer wrappers, so the induction is on the other one.
  induction t using Tree.induction_below generalizing u with
  | node t ih =>
    rw [Tree.bare_eq, Tree.bare_eq t, h.isWrapper_eq]
    split
    · have hfirst := h.rel_firstNamed?
      cases hc : t.firstNamed? with
      | none =>
        rw [hc] at hfirst
        generalize u.firstNamed? = first' at hfirst
        cases hfirst
        exact h
      | some c =>
        rw [hc] at hfirst
        generalize u.firstNamed? = first' at hfirst
        cases hfirst with
        | some hpart =>
          have hbare := ih c hpart.mem _ (core_mem_nodes t c) hpart.core
          rwa [bare_core] at hbare
    · exact h

end Matches

theorem Part.bare (h : P.Part s' s p v c) : P.Matches s' s v.bare c.bare := by
  have hbare := h.core.bare
  rwa [bare_core] at hbare

namespace Matches

variable (h : P.Matches s' s u t)

include h

theorem rel_bare_field? (r : Role) :
    Option.Rel (fun v c => P.Matches s' s v.bare c.bare) (u.field? r) (t.field? r) :=
  (h.rel_field? r).imp fun _ _ hc => hc.1.bare

/-- The arguments of a call without their wrappers. -/
theorem forall₂_bare_arguments :
    List.Forall₂ (fun a' a => P.Matches s' s a'.bare a.bare)
      (((u.field? .arguments).map Tree.named).getD [])
      (((t.field? .arguments).map Tree.named).getD []) :=
  ((h.rel_field?_of_mem (by decide)).map fun _ _ hlist =>
    hlist.forall₂_named.imp fun _ _ hc => hc.bare).forall₂_getD

/-- What is made of the children that are no expressions. -/
theorem forall₂_named_filterMap {α β : Type} {R : α → β → Prop} {F' : Tree → Option α}
    {F : Tree → Option β}
    (hexpression : ∀ c, c.isAny expressionKinds → F' c = none ∧ F c = none)
    (hmatches : ∀ u, ∀ c ∈ t.named, P.Matches s' s u c → Option.Rel R (F' u) (F c)) :
    List.Forall₂ R (u.named.filterMap F') (t.named.filterMap F) := by
  refine List.rel_filterMap (R := fun v c => Option.Rel R (F' v) (F c)) (fun _ _ hc => hc)
    (h.forall₂_named.imp_of_mem fun v c hmem hc => ?_)
  rcases hc.matches_or_expressions with hsame | ⟨hv, hc⟩
  · exact hmatches v c hmem hsame
  · rw [(hexpression v hv).1, (hexpression c hc).2]
    exact .none

end Matches

end Trimming

end FlowAnalysis.Syntax
