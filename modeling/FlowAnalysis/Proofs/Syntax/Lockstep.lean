import FlowAnalysis.Proofs.Syntax.Reading

/-!
# Trees side by side

Two trees of much the same shape are gone through side by side: from two nodes to some of their
children, and from there perhaps further down.  Of two pairs of nodes that are come by, one stands
inside the other in both trees, or they stand apart in both.

## Main definitions

* `Tree.Lockstep` — the pairs of nodes that are come by.

## Main results

* `Tree.Lockstep.mem_or_apart` — **of two pairs of nodes one stands inside the other, or they stand
  apart in both trees.**
* `Tree.Lockstep.mem_nodes_iff` — what stands inside a node stands inside it in the other tree.
-/

namespace FlowAnalysis.Syntax.Tree

variable {c p t t' u u' v v' : Tree}

/-! ### Nodes inside one another -/

theorem sizeOf_lt_of_mem_children (h : c ∈ t.children) : sizeOf c < sizeOf t := by
  obtain ⟨l, r, span, ts⟩ := t
  have hlt := List.sizeOf_lt_of_mem (show c ∈ ts from h)
  rw [node.sizeOf_spec]
  omega

theorem sizeOf_le_of_mem_nodes (h : u ∈ t.nodes) : sizeOf u ≤ sizeOf t := by
  induction t using Tree.induction with
  | node l r span ts ih =>
    rcases mem_nodes.1 h with rfl | ⟨c, hc, h⟩
    · exact Nat.le_refl _
    · exact Nat.le_trans (ih c hc h) (Nat.le_of_lt (sizeOf_lt_of_mem_children hc))

/-- A node stands below none of its children. -/
theorem not_mem_nodes_of_mem_children (h : c ∈ t.children) : t ∉ c.nodes := fun ht =>
  Nat.not_lt.2 (sizeOf_le_of_mem_nodes ht) (sizeOf_lt_of_mem_children h)

/-- What stands in front of a node or behind it does not stand inside it. -/
theorem not_mem_nodes_of_apart (hv : v.Laid) (h : u.stop ≤ v.start ∨ v.stop ≤ u.start) :
    u ∉ v.nodes := by
  intro hu
  obtain ⟨hlaid, hstart, hstop⟩ := laid_of_mem_nodes hv hu
  have hlt := hlaid.lt
  omega

/-- What holds of a node if it holds of all nodes below its children. -/
theorem induction_below {motive : Tree → Prop}
    (node : ∀ t, (∀ c ∈ t.children, ∀ n ∈ c.nodes, motive n) → motive t) (t : Tree) : motive t := by
  have hall : ∀ n ∈ t.nodes, motive n := by
    induction t using Tree.induction with
    | node l r span ts ih =>
      have hbelow : ∀ c ∈ ts, ∀ n ∈ c.nodes, motive n := ih
      intro n hn
      rcases mem_nodes.1 hn with rfl | ⟨c, hc, hn⟩
      · exact node _ hbelow
      · exact hbelow c hc n hn
  exact hall t t.self_mem_nodes

/-! ### Pairs of nodes -/

/-- The pairs of nodes that are come by where two trees are gone through side by side: `parts` are
the children that are gone on to, and `next` is where it is gone on from two of them. -/
structure Lockstep (parts : Tree → List Tree) (next : Tree → Tree × Tree → Tree × Tree)
    (pairs : Tree → Tree → List (Tree × Tree)) : Prop where
  eq : ∀ u t, pairs u t =
    (u, t) :: ((parts u).zip (parts t)).flatMap fun x => pairs (next t x).1 (next t x).2
  parts : ∀ t, (parts t).Sublist t.children
  next : ∀ t x, (next t x).1 ∈ x.1.nodes ∧ (next t x).2 ∈ x.2.nodes

namespace Lockstep

variable {parts : Tree → List Tree} {next : Tree → Tree × Tree → Tree × Tree}
  {pairs : Tree → Tree → List (Tree × Tree)} (h : Lockstep parts next pairs)

include h

theorem mem_self (u t : Tree) : (u, t) ∈ pairs u t := by
  rw [h.eq]
  exact List.mem_cons_self

theorem mem_children {x : Tree × Tree} (hx : x ∈ (parts u).zip (parts t)) :
    x.1 ∈ u.children ∧ x.2 ∈ t.children :=
  ⟨(h.parts u).subset (List.of_mem_zip hx).1, (h.parts t).subset (List.of_mem_zip hx).2⟩

theorem pairs_subset (hu : (u', u) ∈ pairs t' t) : pairs u' u ⊆ pairs t' t := by
  induction t using induction_below generalizing t' with
  | node t ih =>
    rw [h.eq, List.mem_cons] at hu
    rcases hu with heq | hu
    · obtain ⟨rfl, rfl⟩ := Prod.mk.inj heq
      exact List.Subset.refl _
    · obtain ⟨x, hx, hu⟩ := List.mem_flatMap.1 hu
      rw [h.eq t']
      exact fun y hy => List.mem_cons_of_mem _
        (List.mem_flatMap.2 ⟨x, hx, ih x.2 (h.mem_children hx).2 _ (h.next t x).2 hu hy⟩)

theorem mem_nodes (hu : (u', u) ∈ pairs t' t) : u' ∈ t'.nodes ∧ u ∈ t.nodes := by
  induction t using induction_below generalizing t' with
  | node t ih =>
    rw [h.eq, List.mem_cons] at hu
    rcases hu with heq | hu
    · obtain ⟨rfl, rfl⟩ := Prod.mk.inj heq
      exact ⟨self_mem_nodes _, self_mem_nodes _⟩
    · obtain ⟨x, hx, hu⟩ := List.mem_flatMap.1 hu
      obtain ⟨hmem', hmem⟩ := h.mem_children hx
      obtain ⟨hnext', hnext⟩ := h.next t x
      obtain ⟨hu', hu⟩ := ih x.2 hmem _ hnext hu
      exact ⟨nodes_subset hmem' _ (mem_nodes_trans hnext' hu'),
        nodes_subset hmem _ (mem_nodes_trans hnext hu)⟩

/-- Of two pairs of children one stands in front of the other. -/
theorem eq_or_apart (ht' : LaidFrom t'.start t'.children t'.stop)
    (ht : LaidFrom t.start t.children t.stop) {x y : Tree × Tree}
    (hx : x ∈ (parts t').zip (parts t)) (hy : y ∈ (parts t').zip (parts t)) : x = y ∨
      (x.1.stop ≤ y.1.start ∧ x.2.stop ≤ y.2.start) ∨
        (y.1.stop ≤ x.1.start ∧ y.2.stop ≤ x.2.start) := by
  have hzip : ∀ {l' l : List Tree}, l'.Pairwise (fun a b => a.stop ≤ b.start) →
      l.Pairwise (fun a b => a.stop ≤ b.start) → (l'.zip l).Pairwise
        fun a b => a.1.stop ≤ b.1.start ∧ a.2.stop ≤ b.2.start := by
    intro l' l hl' hl
    induction hl' generalizing l with
    | nil => exact .nil
    | cons ha _ ih =>
      cases hl with
      | nil => exact .nil
      | cons hb hl =>
        refine .cons (fun z hz => ?_) (ih hl)
        exact ⟨ha _ (List.of_mem_zip hz).1, hb _ (List.of_mem_zip hz).2⟩
  have hpairwise : ((parts t').zip (parts t)).Pairwise
      fun a b => a.1.stop ≤ b.1.start ∧ a.2.stop ≤ b.2.start :=
    hzip ((pairwise_of_laidFrom ht').sublist (h.parts t'))
      ((pairwise_of_laidFrom ht).sublist (h.parts t))
  exact List.Pairwise.forall_of_forall_of_flip (R := fun x y : Tree × Tree => x = y ∨
      (x.1.stop ≤ y.1.start ∧ x.2.stop ≤ y.2.start) ∨
        (y.1.stop ≤ x.1.start ∧ y.2.stop ≤ x.2.start)) (fun _ _ => .inl rfl)
    (hpairwise.imp fun h => .inr (.inl h)) (hpairwise.imp fun h => .inr (.inr h)) hx hy

/-- **Of two pairs of nodes one stands inside the other, or they stand apart in both trees.** -/
theorem mem_or_apart (ht' : LaidFrom t'.start t'.children t'.stop)
    (ht : LaidFrom t.start t.children t.stop) (hu : (u', u) ∈ pairs t' t)
    (hv : (v', v) ∈ pairs t' t) : (u', u) ∈ pairs v' v ∨
      (∃ c ∈ u'.children, v' ∈ c.nodes) ∧ (∃ c ∈ u.children, v ∈ c.nodes) ∨
      u'.stop ≤ v'.start ∧ u.stop ≤ v.start ∨ v'.stop ≤ u'.start ∧ v.stop ≤ u.start := by
  induction t using induction_below generalizing t' with
  | node t ih =>
    rw [h.eq, List.mem_cons, List.mem_flatMap] at hu hv
    rcases hv with hv | ⟨y, hy, hv⟩
    · -- The second pair is the outermost one.
      obtain ⟨rfl, rfl⟩ := Prod.mk.inj hv
      refine .inl ?_
      rw [h.eq, List.mem_cons, List.mem_flatMap]
      exact hu
    · obtain ⟨hy', hy₀⟩ := h.mem_children hy
      have hdv' := mem_nodes_trans (h.next t y).1 (h.mem_nodes hv).1
      have hdv := mem_nodes_trans (h.next t y).2 (h.mem_nodes hv).2
      rcases hu with hu | ⟨x, hx, hu⟩
      · obtain ⟨rfl, rfl⟩ := Prod.mk.inj hu
        exact .inr (.inl ⟨⟨y.1, hy', hdv'⟩, ⟨y.2, hy₀, hdv⟩⟩)
      · obtain ⟨hx', hx₀⟩ := h.mem_children hx
        have hcu' := mem_nodes_trans (h.next t x).1 (h.mem_nodes hu).1
        have hcu := mem_nodes_trans (h.next t x).2 (h.mem_nodes hu).2
        have hlaid' := (ht'.laid_of_mem hx').1
        have hlaid := (ht.laid_of_mem hx₀).1
        have huc' := laid_of_mem_nodes hlaid' hcu'
        have huc := laid_of_mem_nodes hlaid hcu
        have hvd' := laid_of_mem_nodes (ht'.laid_of_mem hy').1 hdv'
        have hvd := laid_of_mem_nodes (ht.laid_of_mem hy₀).1 hdv
        rcases h.eq_or_apart ht' ht hx hy with rfl | happart | happart
        · -- Both pairs stand below the same child.
          have hbelow' := (laid_of_mem_nodes hlaid' (h.next t x).1).1
          have hbelow := (laid_of_mem_nodes hlaid (h.next t x).2).1
          exact ih x.2 hx₀ _ (h.next t x).2 hbelow'.children hbelow.children hu hv
        · have h1 := Nat.le_trans huc'.2.2 (Nat.le_trans happart.1 hvd'.2.1)
          have h2 := Nat.le_trans huc.2.2 (Nat.le_trans happart.2 hvd.2.1)
          exact .inr (.inr (.inl ⟨h1, h2⟩))
        · have h1 := Nat.le_trans hvd'.2.2 (Nat.le_trans happart.1 huc'.2.1)
          have h2 := Nat.le_trans hvd.2.2 (Nat.le_trans happart.2 huc.2.1)
          exact .inr (.inr (.inr ⟨h1, h2⟩))

/-- **What stands inside a node stands inside it in the other tree**, and nothing else. -/
theorem mem_nodes_iff (ht' : LaidFrom t'.start t'.children t'.stop)
    (ht : LaidFrom t.start t.children t.stop) (hu : (u', u) ∈ pairs t' t)
    (hv : (v', v) ∈ pairs t' t) (hlaid' : v'.Laid) (hlaid : v.Laid) :
    u' ∈ v'.nodes ↔ u ∈ v.nodes := by
  rcases h.mem_or_apart ht' ht hu hv with hin | ⟨⟨c', hc', hv'⟩, c, hc, hv⟩ | happart | happart
  · exact iff_of_true (h.mem_nodes hin).1 (h.mem_nodes hin).2
  · exact iff_of_false (fun hmem => not_mem_nodes_of_mem_children hc' (mem_nodes_trans hv' hmem))
      fun hmem => not_mem_nodes_of_mem_children hc (mem_nodes_trans hv hmem)
  · exact iff_of_false (not_mem_nodes_of_apart hlaid' (.inl happart.1))
      (not_mem_nodes_of_apart hlaid (.inl happart.2))
  · exact iff_of_false (not_mem_nodes_of_apart hlaid' (.inr happart.1))
      (not_mem_nodes_of_apart hlaid (.inr happart.2))

/-- The same for two children, wherever it is gone on from them. -/
theorem mem_nodes_iff_of_mem_zip (ht' : LaidFrom t'.start t'.children t'.stop)
    (ht : LaidFrom t.start t.children t.stop) (hu : (u', u) ∈ pairs t' t) {q p : Tree}
    (hq : (q, p) ∈ pairs t' t) (hv : (v', v) ∈ (parts q).zip (parts p)) :
    u' ∈ v'.nodes ↔ u ∈ v.nodes := by
  obtain ⟨hq', hp'⟩ := h.mem_nodes hq
  have hqlaid := (children_of_mem_nodes ht' hq').1
  have hplaid := (children_of_mem_nodes ht hp').1
  obtain ⟨hv', hv₀⟩ := h.mem_children hv
  obtain ⟨hlaid', hstart', hstop'⟩ := hqlaid.laid_of_mem hv'
  obtain ⟨hlaid, hstart, hstop⟩ := hplaid.laid_of_mem hv₀
  have hnone : (∃ c ∈ u'.children, v' ∈ c.nodes) → (∃ c ∈ u.children, v ∈ c.nodes) →
      (u' ∈ v'.nodes ↔ u ∈ v.nodes) := fun ⟨c', hc', hin'⟩ ⟨c, hc, hin⟩ =>
    iff_of_false (fun hmem => not_mem_nodes_of_mem_children hc' (mem_nodes_trans hin' hmem))
      fun hmem => not_mem_nodes_of_mem_children hc (mem_nodes_trans hin hmem)
  rcases h.mem_or_apart ht' ht hu hq with hin | ⟨⟨c', hc', hin'⟩, c, hc, hin⟩ | happart | happart
  · rw [h.eq, List.mem_cons, List.mem_flatMap] at hin
    rcases hin with heq | ⟨x, hx, hin⟩
    · obtain ⟨rfl, rfl⟩ := Prod.mk.inj heq
      exact hnone ⟨v', hv', self_mem_nodes v'⟩ ⟨v, hv₀, self_mem_nodes v⟩
    · have hx' := mem_nodes_trans (h.next p x).1 (h.mem_nodes hin).1
      have hx₀ := mem_nodes_trans (h.next p x).2 (h.mem_nodes hin).2
      obtain ⟨-, hlo', hhi'⟩ :=
        laid_of_mem_nodes (hqlaid.laid_of_mem (h.mem_children hx).1).1 hx'
      obtain ⟨-, hlo, hhi⟩ :=
        laid_of_mem_nodes (hplaid.laid_of_mem (h.mem_children hx).2).1 hx₀
      rcases h.eq_or_apart hqlaid hplaid hx hv with rfl | ⟨h1, h2⟩ | ⟨h1, h2⟩
      · exact iff_of_true hx' hx₀
      · exact iff_of_false (not_mem_nodes_of_apart hlaid' (.inl (Nat.le_trans hhi' h1)))
          (not_mem_nodes_of_apart hlaid (.inl (Nat.le_trans hhi h2)))
      · exact iff_of_false (not_mem_nodes_of_apart hlaid' (.inr (Nat.le_trans h1 hlo')))
          (not_mem_nodes_of_apart hlaid (.inr (Nat.le_trans h2 hlo)))
  · exact hnone ⟨c', hc', mem_nodes_trans hin' (mem_nodes_of_child hv')⟩
      ⟨c, hc, mem_nodes_trans hin (mem_nodes_of_child hv₀)⟩
  · exact iff_of_false (not_mem_nodes_of_apart hlaid' (.inl (Nat.le_trans happart.1 hstart')))
      (not_mem_nodes_of_apart hlaid (.inl (Nat.le_trans happart.2 hstart)))
  · exact iff_of_false (not_mem_nodes_of_apart hlaid' (.inr (Nat.le_trans hstop' happart.1)))
      (not_mem_nodes_of_apart hlaid (.inr (Nat.le_trans hstop happart.2)))

end Lockstep

end FlowAnalysis.Syntax.Tree
