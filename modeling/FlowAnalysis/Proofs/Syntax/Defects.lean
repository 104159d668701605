import FlowAnalysis.Proofs.Syntax.Nodes

/-!
# Looking for the first defect

The search for a defect enters a node only if the node is marked or stands for a token that is
lacking.  Where exactly the nodes with a defect in them are marked, nothing is lost by this: the search
comes to the first defect in reading order whenever there is one, so no tree with a defect becomes a
source.

## Main definitions

* `Tree.WellMarked` — the nodes that are marked are those with a defect in them.

## Main results

* `Tree.search?_eq_find?` — the search finds the first defect in reading order.
* `Source.ofTree_of_wellMarked` — **a tree without a defect becomes a source, of any other one the
  first defect is reported.**
* `Tree.wellMarked_hasDefect` — the marks with which texts are parsed are as they should be.
-/

namespace FlowAnalysis.Syntax

namespace Tree

variable {marked : Tree → Bool} {t c : Tree}

/-- The nodes of a tree that are marked are those with a defect in them. -/
def WellMarked (marked : Tree → Bool) (t : Tree) : Prop :=
  ∀ u ∈ t.nodes, marked u ↔ ∃ n ∈ u.nodes, n.isDefect

theorem WellMarked.child (h : t.WellMarked marked) (hc : c ∈ t.children) : c.WellMarked marked :=
  fun u hu => h u (nodes_subset hc u hu)

/-! ### The first defect -/

/-- What is found first does not depend on more than what is found at each entry. -/
theorem findSome?_congr {α β : Type} {f g : α → Option β} {as : List α}
    (h : ∀ a ∈ as, f a = g a) : as.findSome? f = as.findSome? g := by
  induction as with
  | nil => rfl
  | cons a as ih =>
    rw [List.forall_mem_cons] at h
    rw [List.findSome?_cons, List.findSome?_cons, h.1, ih h.2]

/-- The first defect in reading order is the node itself or stands below the first of the children
that have one. -/
theorem find?_nodes (t : Tree) : t.nodes.find? isDefect =
    if t.isDefect then some t else t.children.findSome? fun c => c.nodes.find? isDefect := by
  rw [nodes_eq, nodesOf_eq]
  cases h : t.isDefect with
  | true => rw [List.find?_cons_of_pos h, if_pos rfl]
  | false => rw [List.find?_cons_of_neg (by simp [h]), List.find?_flatMap, if_neg (by simp)]

theorem firstDefectOf?_eq (ts : List Tree) : firstDefectOf? ts = ts.findSome? firstDefect? := by
  induction ts with
  | nil => rfl
  | cons t ts ih =>
    rw [firstDefectOf?, ih, List.findSome?_cons]
    cases t.firstDefect? <;> rfl

theorem firstDefect?_eq_find? (t : Tree) : t.firstDefect? = t.nodes.find? isDefect := by
  induction t using Tree.induction with
  | node l r span ts ih =>
    rw [firstDefect?, find?_nodes, firstDefectOf?_eq, children_node]
    congr 1
    exact findSome?_congr ih

/-! ### The search -/

/-- The search goes on with the first child that it enters and below which it finds something. -/
theorem searchIn?_eq (marked : Tree → Bool) (ts : List Tree) : searchIn? marked ts =
    ts.findSome? fun t => if marked t || t.isMissing then t.search? marked else none := by
  induction ts with
  | nil => rfl
  | cons t ts ih =>
    rw [searchIn?, ih, List.findSome?_cons]
    split
    · cases t.search? marked <;> rfl
    · rfl

/-- **The search finds the first defect in reading order.** -/
theorem search?_eq_find? (h : t.WellMarked marked) :
    t.search? marked = t.nodes.find? isDefect := by
  induction t using Tree.induction with
  | node l r span ts ih =>
    rw [search?, find?_nodes, searchIn?_eq, children_node]
    congr 1
    apply findSome?_congr
    intro c hc
    split
    · exact ih c hc (h.child hc)
    · next hpassed =>
      -- A child that is passed over is not marked, so there is nothing to be found below it.
      symm
      rw [List.find?_eq_none]
      intro n hn hdefect
      have hmarked : marked c := (h c (mem_nodes_of_child hc)).2 ⟨n, hn, hdefect⟩
      exact hpassed (by simp [hmarked])

/-! ### Marks -/

theorem hasDefectIn_iff (ts : List Tree) : hasDefectIn ts ↔ ∃ t ∈ ts, t.hasDefect := by
  induction ts with
  | nil => simp [hasDefectIn]
  | cons t ts ih => simp [hasDefectIn, ih]

theorem hasDefect_iff (t : Tree) : t.hasDefect ↔ ∃ n ∈ t.nodes, n.isDefect := by
  induction t using Tree.induction with
  | node l r span ts ih =>
    rw [hasDefect, Bool.or_eq_true, hasDefectIn_iff]
    constructor
    · rintro (hself | ⟨c, hc, hbelow⟩)
      · exact ⟨_, self_mem_nodes _, hself⟩
      · obtain ⟨n, hn, hdefect⟩ := (ih c hc).1 hbelow
        exact ⟨n, nodes_subset hc n hn, hdefect⟩
    · rintro ⟨n, hn, hdefect⟩
      rcases mem_nodes.1 hn with rfl | ⟨c, hc, hn⟩
      · exact .inl hdefect
      · exact .inr ⟨c, hc, (ih c hc).2 ⟨n, hn, hdefect⟩⟩

/-- **The marks with which texts are parsed are as they should be.** -/
theorem wellMarked_hasDefect (t : Tree) : t.WellMarked hasDefect := fun u _ => u.hasDefect_iff

end Tree

/-! ### Sources -/

namespace Source

variable {marked : Tree → Bool} {text : Chars} {root : Tree}

/-- What becomes of a tree is decided by its first defect. -/
theorem ofTree_eq (h : root.WellMarked marked) : ofTree marked text root =
    match root.nodes.find? Tree.isDefect with
    | none => .ok ⟨text, root⟩
    | some n => .error (defectAt text n) := by
  unfold ofTree
  split
  · rw [Tree.search?_eq_find? h]
    cases root.nodes.find? Tree.isDefect <;> rfl
  · next hplain =>
    have hnone : root.nodes.find? Tree.isDefect = none := by
      rw [List.find?_eq_none]
      intro n hn hdefect
      exact hplain ((h root root.self_mem_nodes).2 ⟨n, hn, hdefect⟩)
    rw [hnone]

/-- **A tree without a defect becomes a source, of any other one the first defect in reading order is
reported, with the place where it begins.**  The search in a tree that is marked never fails, so the
case that a marked tree is taken as it is does not arise. -/
theorem ofTree_of_wellMarked (h : root.WellMarked marked) :
    (ofTree marked text root = .ok ⟨text, root⟩ ↔ ∀ n ∈ root.nodes, n.isDefect = false) ∧
    (∀ e, ofTree marked text root = .error e ↔ ∃ before n after,
      root.nodes = before ++ n :: after ∧ (∀ m ∈ before, m.isDefect = false) ∧ n.isDefect ∧
        e = defectAt text n) ∧
    (∀ n, (defectAt text n).location = locationOf text n.start) ∧
    (marked root → ∃ n, root.search? marked = some n) := by
  rw [ofTree_eq h]
  refine ⟨?_, fun e => ?_, fun n => ?_, fun hmarked => ?_⟩
  · cases hfind : root.nodes.find? Tree.isDefect with
    | none => simpa using hfind
    | some n =>
      simp only [reduceCtorEq, false_iff]
      intro hnone
      have hdefect := List.find?_some hfind
      simp [hnone n (List.mem_of_find?_eq_some hfind)] at hdefect
  · constructor
    · intro herror
      cases hfind : root.nodes.find? Tree.isDefect with
      | none => simp [hfind] at herror
      | some n =>
        obtain ⟨hdefect, before, after, hnodes, hbefore⟩ := List.find?_eq_some_iff_append.1 hfind
        rw [hfind] at herror
        exact ⟨before, n, after, hnodes, by simpa using hbefore, hdefect,
          (Except.error.inj herror).symm⟩
    · rintro ⟨before, n, after, hnodes, hbefore, hdefect, rfl⟩
      have hfind : root.nodes.find? Tree.isDefect = some n :=
        List.find?_eq_some_iff_append.2 ⟨hdefect, before, after, hnodes, by simpa using hbefore⟩
      rw [hfind]
  · unfold defectAt
    split <;> rfl
  · obtain ⟨n, hn, hdefect⟩ := (h root root.self_mem_nodes).1 hmarked
    rw [Tree.search?_eq_find? h]
    cases hfind : root.nodes.find? Tree.isDefect with
    | none => exact absurd hdefect (List.find?_eq_none.1 hfind n hn)
    | some n => exact ⟨n, rfl⟩

/-- A tree in which a token is lacking below its second node, and in which a stretch behind that
fits nowhere. -/
def brokenTree : Tree :=
  .node (.rule .program) none ⟨0, 4⟩
    [.node (.token ";") none ⟨0, 1⟩ [],
      .node (.rule .expressionStatement) none ⟨2, 2⟩ [.node (.missing "identifier") none ⟨2, 2⟩ []],
      .node .error none ⟨3, 4⟩ []]

theorem ofTree_of_wellMarked_brokenTree : brokenTree.WellMarked Tree.hasDefect ∧
    ofTree Tree.hasDefect #[';', '\n', ' ', '?'] brokenTree =
      .error ⟨.missing "identifier", ⟨2, 1⟩⟩ := by
  refine ⟨brokenTree.wellMarked_hasDefect, ?_⟩
  refine ((ofTree_of_wellMarked brokenTree.wellMarked_hasDefect).2.1 _).2 ⟨[brokenTree, .node (.token ";") none ⟨0, 1⟩ [],
    .node (.rule .expressionStatement) none ⟨2, 2⟩ [.node (.missing "identifier") none ⟨2, 2⟩ []]],
    .node (.missing "identifier") none ⟨2, 2⟩ [], [.node .error none ⟨3, 4⟩ []], rfl, by decide, rfl,
    by decide⟩

end Source

end FlowAnalysis.Syntax
