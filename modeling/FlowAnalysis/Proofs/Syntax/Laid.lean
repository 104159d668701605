import FlowAnalysis.Syntax.Recovery
import FlowAnalysis.Syntax.Walk
import Mathlib.Data.List.Basic

/-!
# Trees that are laid out on a text

In a tree without a defect every node covers some text, children stand inside their parent one
after the other and reach from its beginning to its end, and a few kinds of nodes are made up in a
known way: tokens, names and comments have no parts, branches, loops and constructions begin with
their keyword, objects and their properties begin with something else than a value, and no branch or
loop stands inside what is read as a text.

## Main definitions

* `Kind.manner` — how the nodes of a kind are made up.
* `Tree.straight` — no branch and no loop stands in a tree.
* `Formed` — how a node of some kind is made up.
* `Tree.Laid`, `LaidFrom` — trees and lists of trees that are laid out.
* `Clean` — trees without a defect.

## Main results

* `Tree.induction` — induction from the children of a node to the node.
* `laidFrom_append`, `laidFrom_concat` — laying out one after the other.
* `laidFrom_mark` — roles do not matter.
-/

namespace FlowAnalysis.Syntax

mutual

/-- Induction over trees: what holds of a node as soon as it holds of its children holds of all
trees. -/
theorem Tree.induction {P : Tree → Prop}
    (node : ∀ l r span ts, (∀ t ∈ ts, P t) → P (.node l r span ts)) (t : Tree) : P t := by
  match t with
  | .node l r span ts => exact node l r span ts (Tree.inductionOf node ts)

theorem Tree.inductionOf {P : Tree → Prop}
    (node : ∀ l r span ts, (∀ t ∈ ts, P t) → P (.node l r span ts)) (ts : List Tree) :
    ∀ t ∈ ts, P t := by
  match ts with
  | [] => nofun
  | u :: us =>
    intro t ht
    rcases List.mem_cons.1 ht with h | h
    · exact h ▸ Tree.induction node u
    · exact Tree.inductionOf node us t h

end

/-! ### Kinds -/

/-- How the nodes of a kind are made up. -/
inductive Manner
  /-- They have no parts. -/
  | atomic
  /-- They begin with a keyword, and one of their parts is a body that is a statement. -/
  | owner
  /-- They contain no branch and no loop, so they may be read as texts. -/
  | textual
  /-- They have a name, which is read as a text. -/
  | titled
  /-- They name a member behind a dot, which is read as a text. -/
  | member
  /-- They hold values, but do not begin with one. -/
  | holder
  /-- They begin with a keyword. -/
  | headed
  /-- They may have any parts. -/
  | ordinary

namespace Kind

/-- How the nodes of a kind are made up. -/
@[reducible] def manner : Kind → Manner
  | comment | htmlComment | identifier | propertyIdentifier | privatePropertyIdentifier
  | shorthandPropertyIdentifier | shorthandPropertyIdentifierPattern | typeIdentifier
  | statementIdentifier | number | nullLiteral | undefined | this => .atomic
  | ifStatement | elseClause | forStatement | forInStatement | whileStatement | doStatement => .owner
  | string | predefinedType | nestedTypeIdentifier | literalType | importSpecifier
  | exportSpecifier => .textual
  | interfaceDeclaration | typeAliasDeclaration | genericType => .titled
  | memberExpression => .member
  | object | pair => .holder
  | newExpression => .headed
  | _ => .ordinary

/-- The kinds of branches and loops. -/
@[reducible] def owner (k : Kind) : Bool :=
  match k.manner with
  | .owner => true
  | _ => false

/-- The kinds whose nodes have no parts. -/
@[reducible] def atomic (k : Kind) : Bool :=
  match k.manner with
  | .atomic => true
  | _ => false

/-- The kinds whose nodes contain no branch and no loop. -/
@[reducible] def textual (k : Kind) : Bool :=
  match k.manner with
  | .textual => true
  | _ => false

/-- The kinds whose nodes have a name that is read as a text. -/
@[reducible] def titled (k : Kind) : Bool :=
  match k.manner with
  | .titled => true
  | _ => false

/-- The kinds whose nodes hold values, but do not begin with one. -/
@[reducible] def holder (k : Kind) : Bool :=
  match k.manner with
  | .holder => true
  | _ => false

/-- The kinds whose nodes begin with a keyword but are neither branches nor loops. -/
@[reducible] def headed (k : Kind) : Bool :=
  match k.manner with
  | .headed => true
  | _ => false

/-- The kinds whose nodes may have any parts. -/
@[reducible] def ordinary (k : Kind) : Bool :=
  match k.manner with
  | .ordinary => true
  | _ => false

/-- The kinds whose nodes may lack parts, comments apart. -/
@[reducible] def bare : Kind → Bool
  | comment | htmlComment => false
  | ifStatement | elseClause | forStatement | forInStatement | whileStatement | doStatement => false
  | _ => true

/-- The kinds whose nodes are values of properties only in that role. -/
@[reducible] def valueless : Kind → Bool
  | shorthandPropertyIdentifier => false
  | _ => true

theorem bare_iff (k : Kind) :
    k.bare = true ↔ k.owner = false ∧ k ≠ comment ∧ k ≠ htmlComment := by
  cases k <;> decide

theorem bare_of_manner {k : Kind} (h : k.ordinary ∨ k.textual ∨ k.titled ∨ k.holder) :
    k.bare := by
  revert h
  cases k <;> decide

end Kind

/-! ### Defects -/

namespace Tree

mutual

/-- The first defect of a tree in reading order. -/
def firstDefect? : Tree → Option Tree
  | node l r s ts =>
    if (node l r s ts).isDefect then some (node l r s ts) else firstDefectOf? ts

/-- The first defect of some trees in reading order. -/
def firstDefectOf? : List Tree → Option Tree
  | [] => none
  | t :: ts => (firstDefect? t).or (firstDefectOf? ts)

end

end Tree

/-- None of some trees has a defect. -/
def Clean (ts : List Tree) : Prop := Tree.firstDefectOf? ts = none

@[simp] theorem clean_nil : Clean [] := rfl

@[simp] theorem clean_cons {t : Tree} {ts : List Tree} :
    Clean (t :: ts) ↔ t.firstDefect? = none ∧ Clean ts := by
  simp [Clean, Tree.firstDefectOf?, Option.or_eq_none_iff]

@[simp] theorem clean_append {ts us : List Tree} : Clean (ts ++ us) ↔ Clean ts ∧ Clean us := by
  induction ts with
  | nil => simp
  | cons t ts ih => simp [ih, and_assoc]

@[simp] theorem clean_reverse {ts : List Tree} : Clean ts.reverse ↔ Clean ts := by
  induction ts with
  | nil => simp
  | cons t ts ih => simp [ih, and_comm]

theorem Tree.firstDefect?_node {l : Label} {r : Option Role} {span : Span} {ts : List Tree} :
    (Tree.node l r span ts).firstDefect? = none ↔
      (Tree.node l r span ts).isDefect = false ∧ Clean ts := by
  rw [Tree.firstDefect?]
  split
  · next h => simp [h]
  · next h => simp [h, Clean]

@[simp] theorem Tree.firstDefect?_withRole (t : Tree) (r : Option Role) :
    (t.withRole r).firstDefect? = none ↔ t.firstDefect? = none := by
  obtain ⟨l, r', span, ts⟩ := t
  simp [Tree.withRole, Tree.firstDefect?_node, Tree.isDefect]

/-! ### Branches and loops -/

namespace Tree

/-- Whether the node is a branch or a loop. -/
def isOwner (t : Tree) : Bool :=
  match t.label with
  | .rule k => k.owner
  | _ => false

mutual

/-- Whether no branch and no loop stands in a tree. -/
def straight : Tree → Bool
  | node l r span ts => !(node l r span ts).isOwner && straightAll ts

/-- Whether no branch and no loop stands in some trees. -/
def straightAll : List Tree → Bool
  | [] => true
  | t :: ts => straight t && straightAll ts

end

@[simp] theorem straightAll_eq (ts : List Tree) : straightAll ts = ts.all straight := by
  induction ts with
  | nil => rfl
  | cons t ts ih => simp [straightAll, ih]

@[simp] theorem straight_withRole (t : Tree) (r : Option Role) :
    (t.withRole r).straight = t.straight := by
  obtain ⟨l, r', span, ts⟩ := t
  rfl

/-- Whether the node is a keyword or a punctuation mark. -/
def isTerminal (t : Tree) : Bool :=
  match t.label with
  | .token _ => true
  | _ => false

/-- Whether the node is the value of a property: it says so, or it is a name that stands for itself. -/
def isValue (t : Tree) : Bool :=
  decide (t.role = some .value) || t.is .shorthandPropertyIdentifier

end Tree

/-- A node with a label is made up of some children as its kind says. -/
def Formed : Label → List Tree → Prop
  | .rule k, ts =>
    match k.manner with
    | .atomic => ts = []
    | .owner => ∃ w rest, ts = w :: rest ∧ w.isTerminal ∧ w.role = none
    | .textual => ts.all Tree.straight
    | .titled => ∀ t, ts.find? (fun c => decide (c.role = some .name)) = some t → t.straight
    | .member => ∀ t ∈ ts, t.role = some .property → t.straight
    | .holder => ∀ t, ts.head? = some t → t.isValue = false
    | .headed => ∀ t, ts.head? = some t → t.isTerminal
    | .ordinary => True
  | .token _, ts => ts = []
  | _, _ => True

theorem formed_token {text : String} {ts : List Tree} : Formed (.token text) ts ↔ ts = [] := .rfl

theorem formed_atomic {k : Kind} (h : k.atomic) {ts : List Tree} :
    Formed (.rule k) ts ↔ ts = [] := by
  cases hm : k.manner <;> simp_all [Formed, Kind.atomic]

theorem formed_nil {k : Kind} (h : k.owner = false) : Formed (.rule k) [] := by
  revert h
  cases k <;> simp [Formed]

theorem formed_ordinary {k : Kind} (h : k.ordinary) (ts : List Tree) : Formed (.rule k) ts := by
  cases hm : k.manner <;> simp_all [Formed, Kind.ordinary]

theorem formed_textual {k : Kind} (h : k.textual) {ts : List Tree} :
    Formed (.rule k) ts ↔ ts.all Tree.straight := by
  cases hm : k.manner <;> simp_all [Formed, Kind.textual]

theorem formed_titled {k : Kind} (h : k.titled) {ts : List Tree} : Formed (.rule k) ts ↔
    ∀ t, ts.find? (fun c => decide (c.role = some .name)) = some t → t.straight := by
  cases hm : k.manner <;> simp_all [Formed, Kind.titled]

theorem formed_member {ts : List Tree} : Formed (.rule .memberExpression) ts ↔
    ∀ t ∈ ts, t.role = some .property → t.straight := .rfl

theorem formed_holder {k : Kind} (h : k.holder) {ts : List Tree} : Formed (.rule k) ts ↔
    ∀ t, ts.head? = some t → t.isValue = false := by
  cases hm : k.manner <;> simp_all [Formed, Kind.holder]

theorem formed_headed {k : Kind} (h : k.headed) {ts : List Tree} : Formed (.rule k) ts ↔
    ∀ t, ts.head? = some t → t.isTerminal := by
  cases hm : k.manner <;> simp_all [Formed, Kind.headed]

theorem formed_owner {k : Kind} (h : k.owner) {ts : List Tree} : Formed (.rule k) ts ↔
    ∃ w rest, ts = w :: rest ∧ w.isTerminal ∧ w.role = none := by
  cases hm : k.manner <;> simp_all [Formed, Kind.owner]

/-! ### Laying out -/

mutual

/-- A tree is laid out: it covers some text, and so do its children, one after the other from its
beginning to its end. -/
def Tree.Laid : Tree → Prop
  | .node l _ span ts =>
    span.start < span.stop ∧ Formed l ts ∧ LaidFrom span.start ts span.stop ∧
      (∀ t, ts.head? = some t → t.start = span.start) ∧
      ∀ t, ts.getLast? = some t → t.stop = span.stop

/-- Trees are laid out one after the other between two offsets. -/
def LaidFrom (start : Nat) : List Tree → Nat → Prop
  | [], stop => start ≤ stop
  | t :: ts, stop => start ≤ t.start ∧ t.Laid ∧ LaidFrom t.stop ts stop

end

@[simp] theorem laidFrom_nil {start stop : Nat} : LaidFrom start [] stop ↔ start ≤ stop := by
  rw [LaidFrom]

@[simp] theorem laidFrom_cons {start stop : Nat} {t : Tree} {ts : List Tree} :
    LaidFrom start (t :: ts) stop ↔ start ≤ t.start ∧ t.Laid ∧ LaidFrom t.stop ts stop := by
  rw [LaidFrom]

theorem Tree.Laid.lt {t : Tree} (h : t.Laid) : t.start < t.stop := by
  obtain ⟨l, r, span, ts⟩ := t
  rw [Tree.Laid] at h
  exact h.1

theorem Tree.Laid.formed {t : Tree} (h : t.Laid) : Formed t.label t.children := by
  obtain ⟨l, r, span, ts⟩ := t
  rw [Tree.Laid] at h
  exact h.2.1

theorem Tree.Laid.children {t : Tree} (h : t.Laid) : LaidFrom t.start t.children t.stop := by
  obtain ⟨l, r, span, ts⟩ := t
  rw [Tree.Laid] at h
  exact h.2.2.1

@[simp] theorem Tree.laid_withRole (t : Tree) (r : Option Role) :
    (t.withRole r).Laid ↔ t.Laid := by
  obtain ⟨l, r', span, ts⟩ := t
  simp [Tree.withRole, Tree.Laid]

@[simp] theorem Tree.start_withRole (t : Tree) (r : Option Role) :
    (t.withRole r).start = t.start := rfl

@[simp] theorem Tree.stop_withRole (t : Tree) (r : Option Role) :
    (t.withRole r).stop = t.stop := rfl

theorem LaidFrom.le {start stop : Nat} {ts : List Tree} (h : LaidFrom start ts stop) :
    start ≤ stop := by
  induction ts generalizing start with
  | nil => simpa using h
  | cons t ts ih =>
    rw [laidFrom_cons] at h
    obtain ⟨h1, h2, h3⟩ := h
    have := ih h3
    have := h2.lt
    omega

theorem LaidFrom.mono {start start' stop stop' : Nat} {ts : List Tree}
    (h : LaidFrom start ts stop) (h1 : start' ≤ start) (h2 : stop ≤ stop') :
    LaidFrom start' ts stop' := by
  induction ts generalizing start start' with
  | nil =>
    rw [laidFrom_nil] at h ⊢
    omega
  | cons t ts ih =>
    rw [laidFrom_cons] at h ⊢
    exact ⟨Nat.le_trans h1 h.1, h.2.1, ih h.2.2 (Nat.le_refl _)⟩

theorem laidFrom_append {start stop : Nat} {ts us : List Tree} :
    LaidFrom start (ts ++ us) stop ↔ ∃ mid, LaidFrom start ts mid ∧ LaidFrom mid us stop := by
  induction ts generalizing start with
  | nil =>
    simp only [List.nil_append, laidFrom_nil]
    exact ⟨fun h => ⟨start, Nat.le_refl _, h⟩, fun ⟨mid, h1, h2⟩ => h2.mono h1 (Nat.le_refl _)⟩
  | cons t ts ih =>
    simp only [List.cons_append, laidFrom_cons, ih]
    exact ⟨fun ⟨h1, h2, mid, h3, h4⟩ => ⟨mid, ⟨h1, h2, h3⟩, h4⟩,
      fun ⟨mid, ⟨h1, h2, h3⟩, h4⟩ => ⟨h1, h2, mid, h3, h4⟩⟩

theorem laidFrom_concat {start stop : Nat} {t : Tree} {ts : List Tree} :
    LaidFrom start (ts ++ [t]) stop ↔ LaidFrom start ts t.start ∧ t.Laid ∧ t.stop ≤ stop := by
  rw [laidFrom_append]
  constructor
  · rintro ⟨mid, h1, h2⟩
    rw [laidFrom_cons, laidFrom_nil] at h2
    exact ⟨h1.mono (Nat.le_refl _) h2.1, h2.2⟩
  · rintro ⟨h1, h2, h3⟩
    exact ⟨t.start, h1, by simp [h2, h3]⟩

theorem LaidFrom.laid_of_mem {start stop : Nat} {ts : List Tree} (h : LaidFrom start ts stop)
    {t : Tree} (ht : t ∈ ts) : t.Laid ∧ start ≤ t.start ∧ t.stop ≤ stop := by
  obtain ⟨pre, post, rfl⟩ := List.append_of_mem ht
  obtain ⟨mid, h1, h2⟩ := laidFrom_append.1 h
  rw [laidFrom_cons] at h2
  exact ⟨h2.2.1, Nat.le_trans h1.le h2.1, h2.2.2.le⟩

/-- Trees that are laid out cover nothing before the first and nothing behind the last of them. -/
theorem LaidFrom.tight {start stop : Nat} {ts : List Tree} (h : LaidFrom start ts stop)
    {first last : Tree} (hf : ts.head? = some first) (hl : ts.getLast? = some last) :
    LaidFrom first.start ts last.stop := by
  obtain ⟨pre, rfl⟩ := List.getLast?_eq_some_iff.1 hl
  rw [laidFrom_concat] at h ⊢
  refine ⟨?_, h.2.1, Nat.le_refl _⟩
  cases pre with
  | nil =>
    obtain rfl : last = first := by simpa using hf
    simp
  | cons t ts =>
    obtain rfl : t = first := by simpa using hf
    have := h.1
    rw [laidFrom_cons] at this ⊢
    exact ⟨Nat.le_refl _, this.2⟩

/-! ### Roles -/

theorem clean_mark {role : Role} {ts : List Tree} : Clean (Reader.mark role ts) ↔ Clean ts := by
  induction ts with
  | nil => rfl
  | cons t ts ih =>
    rw [Reader.mark]
    split <;> simp [ih]

theorem laidFrom_mark {role : Role} {start stop : Nat} {ts : List Tree} :
    LaidFrom start (Reader.mark role ts).reverse stop ↔ LaidFrom start ts.reverse stop := by
  induction ts generalizing stop with
  | nil => rfl
  | cons t ts ih =>
    rw [Reader.mark]
    split <;> simp [laidFrom_concat, ih]

end FlowAnalysis.Syntax
