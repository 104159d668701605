import FlowAnalysis.Proofs.Syntax.Nodes

/-!
# Where walks come, and in which order

A walk comes to the nodes that nothing on the way down to them holds up.  In a tree that is laid out
on a text it comes to them in the order in which they stand on the text.

## Main definitions

* `Tree.Reaches` — every node on the way down to a node lets through.

## Main results

* `Tree.mem_walk_iff`, `Tree.mem_walkBelow_iff` — **where a walk comes.**
* `Tree.pairwise_start_nodes` — **reading order is the order in which nodes begin.**
* `Tree.walk_sublist`, `Tree.walkWith_sublist` — a walk comes to the nodes in reading order.
* `Tree.pairwise_apart_walkBelow` — nodes that are not entered stand one behind the other.
-/

namespace FlowAnalysis.Syntax

namespace Tree

variable {through through' : Tree → Bool} {visit : Tree → Visit} {t c u v : Tree} {ts : List Tree}
  {lo hi : Nat}

/-! ### Ways down -/

/-- A node is reached from another one around it: every node on the way down to it, itself left out,
lets through. -/
inductive Reaches (through : Tree → Bool) : Tree → Tree → Prop
  /-- From the node itself. -/
  | here (t : Tree) : Reaches through t t
  /-- From the parent of a node from which it is reached. -/
  | down {t c u : Tree} (ht : through t) (hc : c ∈ t.children) (h : Reaches through c u) :
    Reaches through t u

theorem reaches_iff :
    t.Reaches through u ↔ u = t ∨ through t ∧ ∃ c ∈ t.children, c.Reaches through u := by
  constructor
  · rintro (_ | ⟨ht, hc, h⟩)
    · exact .inl rfl
    · exact .inr ⟨ht, _, hc, h⟩
  · rintro (rfl | ⟨ht, c, hc, h⟩)
    · exact .here u
    · exact .down ht hc h

theorem Reaches.mem_nodes (h : t.Reaches through u) : u ∈ t.nodes := by
  induction h with
  | here t => exact t.self_mem_nodes
  | down _ hc _ ih => exact nodes_subset hc _ ih

/-- What a node is reached by may let through more, as far as the way goes. -/
theorem Reaches.imp (h : t.Reaches through u)
    (hthrough : ∀ n ∈ t.nodes, u ∈ n.nodes → through n → through' n) : t.Reaches through' u := by
  induction h with
  | here t => exact .here t
  | down ht hc h ih =>
    refine .down (hthrough _ (self_mem_nodes _) (nodes_subset hc _ h.mem_nodes) ht) hc ?_
    exact ih fun n hn => hthrough n (nodes_subset hc n hn)

/-- A node that is reached below the root, whatever the root lets through, is reached from the root
if that lets through; above the node it does not matter which of two conditions is asked for. -/
theorem below_iff_reaches (hself : through' t)
    (h : ∀ n ∈ t.nodes, u ∈ n.nodes → (through n ↔ through' n)) :
    (u = t ∨ ∃ c ∈ t.children, c.Reaches through u) ↔ t.Reaches through' u := by
  constructor
  · rintro (rfl | ⟨c, hc, hreach⟩)
    · exact .here u
    · exact .down hself hc (hreach.imp fun n hn hu => (h n (nodes_subset hc n hn) hu).1)
  · intro hreach
    rcases reaches_iff.1 hreach with rfl | ⟨-, c, hc, hreach⟩
    · exact .inl rfl
    · exact .inr ⟨c, hc, hreach.imp fun n hn hu => (h n (nodes_subset hc n hn) hu).2⟩

/-- **Where a walk comes**: to the nodes that it does not leave out, if it enters all nodes on the
way. -/
theorem mem_walk_iff : u ∈ t.walk visit ↔
    t.Reaches (fun n => decide (visit n = .enter)) u ∧ visit u ≠ .skip := by
  induction t using Tree.induction with
  | node l r span ts ih =>
    rw [walk_eq, reaches_iff]
    cases hv : visit (node l r span ts) with
    | enter =>
      simp only [List.mem_cons, List.mem_flatMap, decide_true, true_and]
      constructor
      · rintro (rfl | ⟨c, hc, hu⟩)
        · exact ⟨.inl rfl, by simp [hv]⟩
        · exact ⟨.inr ⟨c, hc, ((ih c hc).1 hu).1⟩, ((ih c hc).1 hu).2⟩
      · rintro ⟨rfl | ⟨c, hc, hu⟩, hskip⟩
        · exact .inl rfl
        · exact .inr ⟨c, hc, (ih c hc).2 ⟨hu, hskip⟩⟩
    | keep =>
      simp only [List.mem_singleton, reduceCtorEq, decide_false, Bool.false_eq_true, false_and,
        or_false]
      exact ⟨fun hu => ⟨hu, by simp [hu, hv]⟩, fun hu => hu.1⟩
    | skip =>
      simp only [List.not_mem_nil, reduceCtorEq, decide_false, Bool.false_eq_true, false_and,
        or_false, false_iff, not_and, not_not]
      rintro rfl
      exact hv

/-- A walk that enters the root whatever it is comes to the root, and where a walk comes from one of
its children. -/
theorem mem_walkBelow_iff : u ∈ t.walkBelow visit ↔ u = t ∨ ∃ c ∈ t.children,
    c.Reaches (fun n => decide (visit n = .enter)) u ∧ visit u ≠ .skip := by
  rw [walkBelow, walkChildren_eq, List.mem_cons, List.mem_flatMap]
  simp only [mem_walk_iff]

theorem except_eq_enter_iff {out : Tree → Bool} : except out t = .enter ↔ out t = false := by
  unfold except
  split <;> simp [*]

theorem mem_nodes_of_mem_walkBelow (h : u ∈ t.walkBelow visit) : u ∈ t.nodes := by
  rcases mem_walkBelow_iff.1 h with rfl | ⟨c, hc, hreach, -⟩
  · exact u.self_mem_nodes
  · exact nodes_subset hc u hreach.mem_nodes

/-! ### Order on the text -/

/-- Trees that are laid out one after the other stand one behind the other. -/
theorem pairwise_of_laidFrom (h : LaidFrom lo ts hi) :
    ts.Pairwise fun u v => u.stop ≤ v.start := by
  induction ts generalizing lo with
  | nil => exact .nil
  | cons t ts ih =>
    rw [laidFrom_cons] at h
    exact List.pairwise_cons.2 ⟨fun v hv => (h.2.2.laid_of_mem hv).2.1, ih h.2.2⟩

/-- What stands below a node whose children are laid out stands between the ends of the node. -/
theorem bounds_of_mem_nodes (h : LaidFrom t.start t.children t.stop) (hu : u ∈ t.nodes) :
    t.start ≤ u.start ∧ u.start ≤ u.stop ∧ u.stop ≤ t.stop := by
  rcases mem_nodes.1 hu with rfl | ⟨c, hc, hu⟩
  · exact ⟨Nat.le_refl _, h.le, Nat.le_refl _⟩
  · obtain ⟨hclaid, hcstart, hcstop⟩ := h.laid_of_mem hc
    obtain ⟨hulaid, hustart, hustop⟩ := laid_of_mem_nodes hclaid hu
    have hlt := hulaid.lt
    omega

/-- What stands below trees that are laid out one after the other stands one behind the other, if it
does so below each of them. -/
theorem pairwise_flatMap_of_laidFrom {R : Tree → Tree → Prop} {F : Tree → List Tree}
    (h : LaidFrom lo ts hi) (hnodes : ∀ c ∈ ts, ∀ u ∈ F c, u ∈ c.nodes)
    (hR : ∀ u v : Tree, u.start < u.stop → u.stop ≤ v.start → R u v)
    (hF : ∀ c ∈ ts, (F c).Pairwise R) : (ts.flatMap F).Pairwise R := by
  induction ts generalizing lo with
  | nil => exact .nil
  | cons c cs ih =>
    rw [laidFrom_cons] at h
    rw [List.forall_mem_cons] at hnodes hF
    rw [List.flatMap_cons, List.pairwise_append]
    refine ⟨hF.1, ih h.2.2 hnodes.2 hF.2, fun u hu v hv => ?_⟩
    obtain ⟨d, hd, hv⟩ := List.mem_flatMap.1 hv
    obtain ⟨hulaid, -, hustop⟩ := laid_of_mem_nodes h.2.1 (hnodes.1 u hu)
    obtain ⟨hdlaid, hdstart, -⟩ := h.2.2.laid_of_mem hd
    obtain ⟨-, hvstart, -⟩ := laid_of_mem_nodes hdlaid (hnodes.2 d hd v hv)
    exact hR u v hulaid.lt (by omega)

/-- A node begins no later than what stands below it, and of two nodes beside each other all of the
first stands in front of the second. -/
theorem pairwise_start_nodes (h : LaidFrom t.start t.children t.stop) :
    t.nodes.Pairwise fun u v => u.start ≤ v.start := by
  induction t using Tree.induction with
  | node l r span ts ih =>
    rw [nodes_eq, nodesOf_eq]
    refine List.pairwise_cons.2 ⟨fun v hv => ?_, ?_⟩
    · obtain ⟨c, hc, hv⟩ := List.mem_flatMap.1 hv
      exact (bounds_of_mem_nodes h (nodes_subset hc v hv)).1
    · exact pairwise_flatMap_of_laidFrom h (fun c _ u hu => hu) (fun u v hlt hle => by omega)
        fun c hc => ih c hc (h.laid_of_mem hc).1.children

mutual

/-- **A walk comes to some of the nodes, in reading order.** -/
theorem walk_sublist (visit : Tree → Visit) (t : Tree) : (t.walk visit).Sublist t.nodes := by
  match t with
  | .node l r span ts =>
    rw [walk, nodes]
    split
    · exact (walkChildren_sublist visit ts).cons_cons _
    · exact (List.nil_sublist _).cons_cons _
    · exact List.nil_sublist _

theorem walkChildren_sublist (visit : Tree → Visit) (ts : List Tree) :
    (walkChildren visit ts).Sublist (nodesOf ts) := by
  match ts with
  | [] => exact .slnil
  | t :: ts =>
    rw [walkChildren, nodesOf]
    exact (walk_sublist visit t).append (walkChildren_sublist visit ts)

end

theorem walkBelow_sublist (visit : Tree → Visit) (t : Tree) :
    (t.walkBelow visit).Sublist t.nodes := by
  rw [nodes_eq]
  exact (walkChildren_sublist visit t.children).cons_cons t

section Context

variable {σ : Type}

mutual

/-- A walk that hands something on from nodes to their children comes to some of the nodes, too. -/
theorem walkWith_sublist (down : Tree → σ → Tree → σ) (visit : σ → Tree → Visit) (s : σ)
    (t : Tree) : ((t.walkWith down visit s).map Prod.fst).Sublist t.nodes := by
  match t with
  | .node l r span ts =>
    rw [walkWith, nodes]
    split
    · exact (walkChildrenWith_sublist down visit _ s ts).cons_cons _
    · exact (List.nil_sublist _).cons_cons _
    · exact List.nil_sublist _

theorem walkChildrenWith_sublist (down : Tree → σ → Tree → σ) (visit : σ → Tree → Visit)
    (parent : Tree) (s : σ) (ts : List Tree) :
    ((walkChildrenWith down visit parent s ts).map Prod.fst).Sublist (nodesOf ts) := by
  match ts with
  | [] => exact .slnil
  | t :: ts =>
    rw [walkChildrenWith, nodesOf, List.map_append]
    exact (walkWith_sublist down visit _ t).append
      (walkChildrenWith_sublist down visit parent s ts)

end

/-- It comes to the nodes in the order in which they begin. -/
theorem pairwise_start_walkWith (h : LaidFrom t.start t.children t.stop)
    (down : Tree → σ → Tree → σ) (visit : σ → Tree → Visit) (s : σ) :
    (t.walkWith down visit s).Pairwise fun x y => x.1.start ≤ y.1.start := by
  have hnodes := (pairwise_start_nodes h).sublist (walkWith_sublist down visit s t)
  rwa [List.pairwise_map] at hnodes

end Context

/-- **A walk comes to the nodes in the order in which they begin.** -/
theorem pairwise_start_walk (h : LaidFrom t.start t.children t.stop) (visit : Tree → Visit) :
    (t.walk visit).Pairwise fun u v => u.start ≤ v.start :=
  (pairwise_start_nodes h).sublist (walk_sublist visit t)

/-- The same if the walk enters the root whatever that is. -/
theorem pairwise_start_walkBelow (h : LaidFrom t.start t.children t.stop) (visit : Tree → Visit) :
    (t.walkBelow visit).Pairwise fun u v => u.start ≤ v.start :=
  (pairwise_start_nodes h).sublist (walkBelow_sublist visit t)

/-- Nodes that a walk does not enter stand one behind the other. -/
theorem pairwise_apart_walk (h : t.Laid) {p : Tree → Bool} (hp : ∀ n, p n → visit n ≠ .enter) :
    ((t.walk visit).filter p).Pairwise fun u v => u.stop ≤ v.start := by
  induction t using Tree.induction with
  | node l r span ts ih =>
    rw [walk_eq]
    split
    · next henter =>
      rw [List.filter_cons_of_neg fun hself => hp _ hself henter, List.filter_flatMap]
      exact pairwise_flatMap_of_laidFrom h.children
        (fun c _ u hu => mem_nodes_of_mem_walk (List.mem_of_mem_filter hu)) (fun u v _ hle => hle)
        fun c hc => ih c hc (h.children.laid_of_mem hc).1
    · exact (List.pairwise_singleton _ _).filter _
    · exact .nil

/-- **Nodes that a walk does not enter stand one behind the other**, if the root is none of them. -/
theorem pairwise_apart_walkBelow (h : LaidFrom t.start t.children t.stop) {p : Tree → Bool}
    (hself : p t = false) (hp : ∀ n, p n → visit n ≠ .enter) :
    ((t.walkBelow visit).filter p).Pairwise fun u v => u.stop ≤ v.start := by
  rw [walkBelow, walkChildren_eq, List.filter_cons_of_neg (by simp [hself]), List.filter_flatMap]
  exact pairwise_flatMap_of_laidFrom h
    (fun c _ u hu => mem_nodes_of_mem_walk (List.mem_of_mem_filter hu)) (fun u v _ hle => hle)
    fun c hc => pairwise_apart_walk (h.laid_of_mem hc).1 hp

end Tree

end FlowAnalysis.Syntax
