import FlowAnalysis.Proofs.Idempotence
import FlowAnalysis.Proofs.Related
import FlowAnalysis.Proofs.Syntax.Lockstep
import FlowAnalysis.Proofs.Syntax.Statements
import FlowAnalysis.Flow.Literal

/-!
# Twin nodes of a source and its normal form

In the normal form of a source every promoted body stands in a block.  Nothing else changes: to
every node of the source there is a node of the normal form in the same place, its twin.  Comments
in front of a body and behind it are inside the block afterwards, so comments among statements are
left out of what is compared.

## Main definitions

* `Tree.pairs` — the nodes of two trees, one of which has its bodies in blocks.
* `Source.Braces` — a source is another one whose promoted bodies stand in blocks.
* `Twin` — a node stands in the place of another one.

## Main results

* `Twin.forall₂_parts`, `Twin.forall₂_children` — the children of twins are twins, but for blocks.
* `Twin.chars_of_isVerbatim`, `Twin.stringValue?` — the texts of twins.
* `Twin.bare` — twins without their wrappers.
-/

namespace FlowAnalysis

open Syntax

namespace Syntax.Tree

/-- Whether a child is a comment among statements, which may stand inside a block afterwards. -/
def isFloating (p c : Tree) : Bool := p.isEnclosing && c.isComment

/-- The children of a node that stay with it. -/
def parts (t : Tree) : List Tree := t.children.filter fun c => !t.isFloating c

/-- The children of a node that are no comments. -/
def uncommented (t : Tree) : List Tree := t.children.filter fun c => !c.isComment

/-- Whether a node is a block around one statement. -/
def isBlockOfOne (t : Tree) : Bool :=
  t.is .statementBlock &&
    match t.uncommented with
    | [left, body, right] => left.isToken "\x7b" && body.role.isNone && right.isToken "\x7d"
    | _ => false

/-- The statement in a block around one. -/
def onlyStatement (t : Tree) : Tree :=
  match t.uncommented with
  | [_, body, _] => body
  | _ => t

/-- What stands for a child of a node in a tree whose bodies stand in blocks: the statement in the
block for a body that is a single statement, else the node in its place. -/
def unblocked (p c' c : Tree) : Tree := if p.bareBody? = some c then c'.onlyStatement else c'

mutual

/-- The nodes of a tree, each with the node in its place in a tree whose bodies stand in blocks. -/
def pairs (t' : Tree) : Tree → List (Tree × Tree)
  | node l r span ts => (t', node l r span ts) :: pairsBelow (node l r span ts) t'.parts ts

/-- The same for the nodes below a node that is given with the parts of the node in its place. -/
def pairsBelow (p : Tree) (us : List Tree) : List Tree → List (Tree × Tree)
  | [] => []
  | c :: cs =>
    if p.isFloating c then pairsBelow p us cs
    else
      match us with
      | [] => []
      | u :: us => pairs (p.unblocked u c) c ++ pairsBelow p us cs

end

/-- Whether the text of a node is the same in normal form: no promoted body stands in it.  In a
template without substitutions there is nothing but characters. -/
def isVerbatim (t : Tree) : Bool :=
  (t.nodes.all fun n => n.bareBody?.isNone) ||
    t.is .templateString && !t.children.any (·.is .templateSubstitution)

end Syntax.Tree

namespace Syntax.Source

/-- The text of a node with the edits that lie inside it. -/
def editedChars (s : Source) (t : Tree) : List Char :=
  Text.Edit.substitute (s.text.toList.take t.stop) t.start
    (s.normalEdits.reverse.filter fun e =>
      decide (t.start < e.span.start) && decide (e.span.start < t.stop))

/-- What a node keeps in normal form. -/
structure Keeps (s' s : Source) (t' t : Tree) : Prop where
  label : t'.label = t.label
  chars : t.isVerbatim → s'.chars t' = s.chars t
  template : t.is .templateString → s'.chars t' = s.editedChars t
  parts : List.Forall₂
    (fun c' c => c'.role = c.role ∧ (t.bareBody? = some c → c'.isBlockOfOne)) t'.parts t.parts

instance (s' s : Source) (t' t : Tree) : Decidable (Keeps s' s t' t) :=
  decidable_of_iff (t'.label = t.label ∧ (t.isVerbatim → s'.chars t' = s.chars t) ∧
      (t.is .templateString → s'.chars t' = s.editedChars t) ∧ List.Forall₂
        (fun c' c => c'.role = c.role ∧ (t.bareBody? = some c → c'.isBlockOfOne)) t'.parts t.parts)
    ⟨fun h => ⟨h.1, h.2.1, h.2.2.1, h.2.2.2⟩, fun h => ⟨h.1, h.2, h.3, h.4⟩⟩

/-- A source is another one whose promoted bodies stand in blocks. -/
def Braces (s' s : Source) : Prop := ∀ x ∈ s'.root.pairs s.root, Keeps s' s x.1 x.2

instance (s' s : Source) : Decidable (s'.Braces s) :=
  inferInstanceAs (Decidable (∀ x ∈ s'.root.pairs s.root, Keeps s' s x.1 x.2))

end Syntax.Source

/-! ### Pairs -/

namespace Syntax.Tree

variable {t' t u' u c p : Tree}

theorem mem_parts : c ∈ t.parts ↔ c ∈ t.children ∧ t.isFloating c = false := by
  simp [parts]

theorem pairs_eq (t' t : Tree) : t'.pairs t =
    (t', t) :: (t'.parts.zip t.parts).flatMap fun x => (t.unblocked x.1 x.2).pairs x.2 := by
  have hbelow : ∀ (p : Tree) (us ts : List Tree), pairsBelow p us ts =
      (us.zip (ts.filter fun c => !p.isFloating c)).flatMap
        fun x => (p.unblocked x.1 x.2).pairs x.2 := by
    intro p us ts
    induction ts generalizing us with
    | nil => simp [pairsBelow]
    | cons c cs ih =>
      rw [List.filter_cons]
      cases us with
      | nil => cases hc : p.isFloating c <;> simp [pairsBelow, hc, ih]
      | cons u us => cases hc : p.isFloating c <;> simp [pairsBelow, hc, ih]
  obtain ⟨l, r, span, ts⟩ := t
  rw [pairs, hbelow]
  rfl

/-- What stands for a child stands below the node in its place. -/
theorem unblocked_mem_nodes (p c' c : Tree) : p.unblocked c' c ∈ c'.nodes := by
  unfold unblocked onlyStatement
  split
  · split
    · next left body right hparts =>
      have hbody : body ∈ c'.uncommented := by simp [hparts]
      exact mem_nodes_of_child (List.mem_of_mem_filter hbody)
    · exact self_mem_nodes _
  · exact self_mem_nodes _

theorem lockstep : Lockstep parts (fun t x => (t.unblocked x.1 x.2, x.2)) pairs where
  eq := pairs_eq
  parts _ := List.filter_sublist
  next t x := ⟨unblocked_mem_nodes t x.1 x.2, self_mem_nodes x.2⟩

/-! ### Parts -/

theorem isComment_iff : c.isComment ↔ c.label = .rule .comment ∧ c.role = none ∧ c.children = [] := by
  simp [isComment, is_iff, and_assoc]

theorem isComment_of_isFloating (h : p.isFloating c) : c.isComment := (Bool.and_eq_true_iff.1 h).2

/-- Where no statements stand, all children stay. -/
theorem parts_of_isEnclosing (h : t.isEnclosing = false) : t.parts = t.children := by
  simp [parts, isFloating, h]

theorem find?_parts {q : Tree → Bool} (hq : ∀ c, c.isComment → q c = false) :
    t.parts.find? q = t.children.find? q := by
  rw [parts, List.find?_filter]
  congr 1
  funext c
  cases hc : t.isFloating c with
  | false => simp
  | true => simp [hq c (isComment_of_isFloating hc)]

theorem filter_parts {q : Tree → Bool} (hq : ∀ c, c.isComment → q c = false) :
    t.parts.filter q = t.children.filter q := by
  rw [parts, List.filter_filter]
  congr 1
  funext c
  cases hc : t.isFloating c with
  | false => simp
  | true => simp [hq c (isComment_of_isFloating hc)]

theorem named_eq_filter_parts (t : Tree) :
    t.named = t.parts.filter fun c => c.isNamed && !c.is .comment :=
  (filter_parts fun c hc => by simp [is, (isComment_iff.1 hc).1]).symm

theorem field?_eq_find?_parts (t : Tree) (r : Role) :
    t.field? r = t.parts.find? fun c => decide (c.role = some r) :=
  (find?_parts fun c hc => by simp [(isComment_iff.1 hc).2.1]).symm

/-- What stands in a block around one statement. -/
theorem uncommented_of_isBlockOfOne (h : t.isBlockOfOne) : t.label = .rule .statementBlock ∧
    ∃ left right, t.uncommented = [left, t.onlyStatement, right] ∧ left.label = .token "\x7b" ∧
      right.label = .token "\x7d" := by
  rw [isBlockOfOne, Bool.and_eq_true] at h
  refine ⟨is_iff.1 h.1, ?_⟩
  have hparts := h.2
  unfold onlyStatement
  split at hparts
  · next left body right heq =>
    rw [heq]
    simp only [isToken, Bool.and_eq_true, decide_eq_true_eq] at hparts
    exact ⟨left, right, rfl, hparts.1.1, hparts.2⟩
  · simp at hparts

/-- Of the parts of a branch or of a loop, one may be a body that is a single statement. -/
theorem bareBody?_of_not_isOwner (h : t.isOwner = false) : t.bareBody? = none := by
  cases hb : t.bareBody? with
  | none => rfl
  | some b => simp [(body?_cases (body?_of_bareBody? hb)).1] at h

theorem isOwner_of_is {k : Kind} (h : t.is k) (hk : k.owner = false) : t.isOwner = false := by
  rw [isOwner, is_iff.1 h]
  exact hk

theorem isEnclosing_of_is {k : Kind} (h : t.is k) (hk : k.enclosing = false) :
    t.isEnclosing = false := by
  rw [isEnclosing, is_iff.1 h]
  exact hk

theorem isEnclosing_of_isAny {ks : List Kind} (h : t.isAny ks)
    (hks : ∀ k ∈ ks, k.enclosing = false) : t.isEnclosing = false := by
  obtain ⟨k, hk, hlabel⟩ := isAny_iff.1 h
  exact isEnclosing_of_is (is_iff.2 hlabel) (hks k hk)

theorem isOwner_of_isAny {ks : List Kind} (h : t.isAny ks) (hks : ∀ k ∈ ks, k.owner = false) :
    t.isOwner = false := by
  obtain ⟨k, hk, hlabel⟩ := isAny_iff.1 h
  exact isOwner_of_is (is_iff.2 hlabel) (hks k hk)

/-! ### Texts that stay -/

theorem straight_eq (t : Tree) : t.straight = (!t.isOwner && t.children.all straight) := by
  obtain ⟨l, r, span, ts⟩ := t
  rw [straight, straightAll_eq]
  rfl

/-- Where no branch and no loop stands, nothing is promoted. -/
theorem isVerbatim_of_straight (h : t.straight) : t.isVerbatim := by
  have hnodes : ∀ n ∈ t.nodes, n.bareBody? = none := by
    induction t using Tree.induction with
    | node l r span ts ih =>
      rw [straight_eq, Bool.and_eq_true, Bool.not_eq_true', List.all_eq_true] at h
      intro n hn
      rcases mem_nodes.1 hn with rfl | ⟨c, hc, hn⟩
      · exact bareBody?_of_not_isOwner h.1
      · exact ih c hc (h.2 c hc) n hn
  have hall : t.nodes.all (fun n => n.bareBody?.isNone) := by
    simpa using hnodes
  rw [isVerbatim, hall, Bool.true_or]

theorem isVerbatim_of_textual {k : Kind} (ht : t.Laid) (h : t.label = .rule k) (hk : k.textual) :
    t.isVerbatim := by
  have hformed := ht.formed
  rw [h, formed_textual hk] at hformed
  have howner : t.isOwner = false := isOwner_of_is (is_iff.2 h) (by revert hk; cases k <;> simp)
  exact isVerbatim_of_straight (by rw [straight_eq, howner, hformed]; rfl)

theorem isVerbatim_of_atomic {k : Kind} (ht : t.Laid) (h : t.label = .rule k) (hk : k.atomic) :
    t.isVerbatim := by
  have hformed := ht.formed
  rw [h, formed_atomic hk] at hformed
  have howner : t.isOwner = false := isOwner_of_is (is_iff.2 h) (by revert hk; cases k <;> simp)
  exact isVerbatim_of_straight (by rw [straight_eq, howner, hformed]; rfl)

end Syntax.Tree

/-! ### Twins -/

/-- A source is another one whose promoted bodies stand in blocks, and both are laid out. -/
structure Syntax.Source.Bracing (s' s : Source) : Prop where
  braces : s'.Braces s
  rooted' : Rooted s'.text s'.root
  rooted : Rooted s.text s.root
  placed : s.root.Placed

/-- A node of the normal form stands in the place of a node of the source. -/
structure Twin (s' s : Source) (t' t : Tree) : Prop where
  bracing : s'.Bracing s
  mem : (t', t) ∈ s'.root.pairs s.root

/-- A child of a node stands in the place of a child of its twin, or as a block around it if that is
a body to be promoted. -/
structure TwinPart (s' s : Source) (t' t c' c : Tree) : Prop where
  mem' : c' ∈ t'.children
  mem : c ∈ t.children
  role : c'.role = c.role
  block : t.bareBody? = some c → c'.isBlockOfOne
  twin : Twin s' s (t.unblocked c' c) c

theorem Syntax.Source.Bracing.twin_root {s' s : Source} (h : s'.Bracing s) :
    Twin s' s s'.root s.root := ⟨h, Tree.lockstep.mem_self _ _⟩

namespace Twin

variable {s' s : Source} {t' t u' u : Tree} {k : Kind}

section

variable (h : Twin s' s t' t)

include h

theorem keeps : Source.Keeps s' s t' t := h.bracing.braces _ h.mem

theorem label : t'.label = t.label := h.keeps.label

theorem is_eq (k : Kind) : t'.is k = t.is k := by rw [Tree.is, Tree.is, h.label]

theorem isAny_eq (ks : List Kind) : t'.isAny ks = t.isAny ks := by
  simp only [Tree.isAny, funext h.is_eq]

theorem isNamed_eq : t'.isNamed = t.isNamed := by rw [Tree.isNamed, Tree.isNamed, h.label]

theorem isToken_eq (text : String) : t'.isToken text = t.isToken text := by
  rw [Tree.isToken, Tree.isToken, h.label]

theorem isWrapper_eq : t'.isWrapper = t.isWrapper := h.isAny_eq _

theorem isFunctionLike_eq : t'.isFunctionLike = t.isFunctionLike := h.isAny_eq _

theorem of_mem (hu : (u', u) ∈ t'.pairs t) : Twin s' s u' u :=
  ⟨h.bracing, Tree.lockstep.pairs_subset h.mem hu⟩

theorem mem_nodes : t ∈ s.root.nodes := (Tree.lockstep.mem_nodes h.mem).2

/-- Every node but the whole text is laid out. -/
theorem laid (ht : t.label = .rule k) (hk : k ≠ .program) : t.Laid := by
  rcases Tree.eq_or_laid_of_mem_nodes h.bracing.rooted.laid h.mem_nodes with rfl | hlaid
  · rw [h.bracing.rooted.label] at ht
    exact absurd (Label.rule.inj ht).symm hk
  · exact hlaid.1

theorem mem_nodes' : t' ∈ s'.root.nodes := (Tree.lockstep.mem_nodes h.mem).1

/-- The children of a node of the normal form are laid out. -/
theorem laid_of_mem_children' (hu : u' ∈ t'.children) : u'.Laid := by
  have hchildren := (Tree.children_of_mem_nodes h.bracing.rooted'.laid h.mem_nodes').1
  exact (hchildren.laid_of_mem hu).1

/-- The children of a node and those of its twin. -/
theorem forall₂_parts : List.Forall₂ (TwinPart s' s t' t) t'.parts t.parts := by
  have hparts := List.forall₂_iff_zip.1 h.keeps.parts
  refine List.forall₂_iff_zip.2 ⟨hparts.1, fun {c' c} hc => ?_⟩
  obtain ⟨hmem', hmem⟩ := List.of_mem_zip hc
  refine ⟨(Tree.mem_parts.1 hmem').1, (Tree.mem_parts.1 hmem).1, (hparts.2 hc).1, (hparts.2 hc).2,
    h.of_mem ?_⟩
  rw [Tree.pairs_eq]
  exact List.mem_cons_of_mem _ (List.mem_flatMap.2 ⟨_, hc, Tree.lockstep.mem_self _ _⟩)

theorem isEnclosing_eq : t'.isEnclosing = t.isEnclosing := by
  rw [Tree.isEnclosing, Tree.isEnclosing, h.label]

/-- Nothing stands where it is banned. -/
theorem respects {c : Tree} (hc : c ∈ t.children) : c.respects t.ban :=
  h.bracing.placed t h.mem_nodes c hc

theorem suits {c : Tree} (hc : c ∈ t.children) : c.suits := Tree.suits_of_respects (h.respects hc)

theorem isOwner_of_mem (ht : t.isEnclosing = false) {c : Tree} (hc : c ∈ t.children) :
    c.isOwner = false := Tree.isOwner_of_respects ht (h.respects hc)

theorem forall₂_parts_of_not_isOwner (ht : t.isOwner = false) :
    List.Forall₂ (fun c' c => c'.role = c.role ∧ Twin s' s c' c) t'.parts t.parts := by
  refine h.forall₂_parts.imp fun c' c hc => ⟨hc.role, ?_⟩
  have htwin := hc.twin
  rwa [Tree.unblocked, Tree.bareBody?_of_not_isOwner ht, if_neg (by simp)] at htwin

theorem forall₂_children (ht : t.isEnclosing = false) :
    List.Forall₂ (fun c' c => c'.role = c.role ∧ Twin s' s c' c) t'.children t.children := by
  rw [← Tree.parts_of_isEnclosing ht, ← Tree.parts_of_isEnclosing (h.isEnclosing_eq.trans ht)]
  exact h.forall₂_parts_of_not_isOwner (Tree.isOwner_of_isEnclosing ht)

/-- The child in a role that is not that of a body to be promoted. -/
theorem rel_field?_of_role {r : Role} (hr : ∀ b, t.bareBody? = some b → b.role ≠ some r) :
    Option.Rel (Twin s' s) (t'.field? r) (t.field? r) := by
  rw [Tree.field?_eq_find?_parts, Tree.field?_eq_find?_parts]
  have hfield := h.forall₂_parts.find? (q := fun c => decide (c.role = some r))
    (p := fun c => decide (c.role = some r)) fun c' c hc => by rw [hc.role]
  refine hfield.imp_of_eq fun c' c hfind hc => ?_
  have hrole : c.role = some r := by simpa using List.find?_some hfind
  have htwin := hc.twin
  rwa [Tree.unblocked, if_neg fun hbare => hr c hbare hrole] at htwin

theorem rel_field? (ht : t.isOwner = false) (r : Role) :
    Option.Rel (Twin s' s) (t'.field? r) (t.field? r) :=
  h.rel_field?_of_role fun b hb => by simp [Tree.bareBody?_of_not_isOwner ht] at hb

theorem forall₂_named (ht : t.isOwner = false) : List.Forall₂ (Twin s' s) t'.named t.named := by
  rw [Tree.named_eq_filter_parts, Tree.named_eq_filter_parts]
  refine ((h.forall₂_parts_of_not_isOwner ht).imp fun _ _ hc => hc.2).filter fun c' c hc => ?_
  rw [hc.isNamed_eq, hc.is_eq]

theorem rel_firstNamed? (ht : t.isOwner = false) :
    Option.Rel (Twin s' s) t'.firstNamed? t.firstNamed? := (h.forall₂_named ht).head?

theorem forall₂_named_filter (ht : t.isOwner = false) (k : Kind) :
    List.Forall₂ (Twin s' s) (t'.named.filter (·.is k)) (t.named.filter (·.is k)) :=
  (h.forall₂_named ht).filter fun _ _ hc => hc.is_eq k

theorem any_is_children (ht : t.isEnclosing = false) (k : Kind) :
    t'.children.any (·.is k) = t.children.any (·.is k) :=
  (h.forall₂_children ht).any_eq fun _ _ hc => hc.2.is_eq k

theorem any_isToken_children (ht : t.isEnclosing = false) (text : String) :
    t'.children.any (·.isToken text) = t.children.any (·.isToken text) :=
  (h.forall₂_children ht).any_eq fun _ _ hc => hc.2.isToken_eq text

/-! ### Texts -/

theorem chars_of_isVerbatim (ht : t.isVerbatim) : s'.chars t' = s.chars t := h.keeps.chars ht

theorem textOf_of_isVerbatim (ht : t.isVerbatim) : s'.textOf t' = s.textOf t :=
  congrArg String.ofList (h.chars_of_isVerbatim ht)

theorem isVerbatim_of_label (ht : t.label = .rule k) (hk : k.atomic ∨ k.textual) :
    t.isVerbatim := by
  have hlaid : t.Laid := h.laid ht (by rintro rfl; simp at hk)
  rcases hk with hk | hk
  · exact Tree.isVerbatim_of_atomic hlaid ht hk
  · exact Tree.isVerbatim_of_textual hlaid ht hk

theorem chars_of_is (ht : t.is k) (hk : k.atomic ∨ k.textual) : s'.chars t' = s.chars t :=
  h.chars_of_isVerbatim (h.isVerbatim_of_label (Tree.is_iff.1 ht) hk)

theorem textOf_of_is (ht : t.is k) (hk : k.atomic ∨ k.textual) : s'.textOf t' = s.textOf t :=
  congrArg String.ofList (h.chars_of_is ht hk)

theorem textOf_of_isAny {ks : List Kind} (ht : t.isAny ks) (hks : ∀ k ∈ ks, k.atomic ∨ k.textual) :
    s'.textOf t' = s.textOf t := by
  obtain ⟨k, hk, hlabel⟩ := Tree.isAny_iff.1 ht
  exact h.textOf_of_is (Tree.is_iff.2 hlabel) (hks k hk)

theorem stringValue? : s'.stringValue? t' = s.stringValue? t := by
  have hnone : ∀ (s : Source) (t : Tree), (t.is .string ||
      t.is .templateString && !t.children.any (·.is .templateSubstitution)) = false →
      s.stringValue? t = none := by
    intro s t ht
    simp only [Source.stringValue?, ht, Bool.false_eq_true, if_false, ite_self]
  have hkind : (t'.is .string ||
      t'.is .templateString && !t'.children.any (·.is .templateSubstitution)) =
      (t.is .string || t.is .templateString && !t.children.any (·.is .templateSubstitution)) := by
    rw [h.is_eq, h.is_eq]
    cases htemplate : t.is .templateString with
    | false => rfl
    | true => rw [h.any_is_children (Tree.isEnclosing_of_is htemplate rfl)]
  cases hvalue : t.is .string || t.is .templateString &&
      !t.children.any (·.is .templateSubstitution) with
  | false => rw [hnone s' t' (hkind.trans hvalue), hnone s t hvalue]
  | true =>
    have hchars : s'.chars t' = s.chars t := by
      rcases Bool.or_eq_true_iff.1 hvalue with hstring | htemplate
      · exact h.chars_of_is hstring (.inr rfl)
      · exact h.chars_of_isVerbatim (by rw [Tree.isVerbatim, htemplate, Bool.or_true])
    simp only [Source.stringValue?, hchars, hkind]

theorem propertyName? : s'.propertyName? t' = s.propertyName? t := by
  unfold Source.propertyName?
  rw [h.isAny_eq, h.is_eq, h.stringValue?]
  split
  · next hname => rw [h.textOf_of_isAny hname (by decide)]
  · rfl

end

/-! ### Wrappers -/

theorem bare (h : Twin s' s t' t) : Twin s' s t'.bare t.bare := by
  induction t using Tree.induction generalizing t' with
  | node l r span ts ih =>
    rw [Tree.bare_eq, Tree.bare_eq (.node l r span ts), h.isWrapper_eq]
    split
    · next hwrapper =>
      have hfirst := h.rel_firstNamed? (Tree.isOwner_of_isAny hwrapper (by decide))
      cases hc : (Syntax.Tree.node l r span ts).firstNamed? with
      | none =>
        rw [hc] at hfirst
        generalize t'.firstNamed? = first' at hfirst
        cases hfirst
        exact h
      | some c =>
        rw [hc] at hfirst
        generalize t'.firstNamed? = first' at hfirst
        cases hfirst with
        | some htwin => exact ih c (Tree.mem_children_of_named (List.mem_of_head? hc)) htwin
    · exact h

theorem rel_bare_field? (h : Twin s' s t' t) (ht : t.isOwner = false) (r : Role) :
    Option.Rel (fun c' c => Twin s' s c'.bare c.bare) (t'.field? r) (t.field? r) :=
  (h.rel_field? ht r).imp fun _ _ hc => hc.bare

end Twin

end FlowAnalysis
