import FlowAnalysis.Proofs.Syntax.Laid
import FlowAnalysis.Syntax.Source
import Mathlib.Data.List.Infix

/-!
# The nodes of a tree

What stands below a node, what walks come by, and where the nodes of a tree that is laid out stand
on its text: one inside the other or one behind the other.

## Main results

* `mem_walk` — a walk comes by every node, or by one around it that it does not enter.
* `nested_of_laidFrom` — of two nodes that overlap one stands inside the other.
* `mem_nodes_of_isValue` — what begins inside a value stands inside it.
* `Source.chars_infix` — the text of a node contains those of the nodes below it.
-/

namespace FlowAnalysis

open Syntax

namespace Syntax.Tree

variable {t u v c n : Tree} {ts : List Tree}

/-! ### Below a node -/

theorem is_iff {k : Kind} : t.is k ↔ t.label = .rule k := decide_eq_true_iff

theorem isAny_iff {ks : List Kind} : t.isAny ks ↔ ∃ k ∈ ks, t.label = .rule k := by
  simp only [isAny, List.any_eq_true, is_iff]

theorem is_eq_false_of {k k' : Kind} (h : t.label = .rule k) (hk : k ≠ k') : t.is k' = false := by
  rw [Bool.eq_false_iff, ne_eq, is_iff, h]
  simpa using hk

theorem field?_eq_some {b : Tree} {r : Role} (h : t.field? r = some b) :
    b ∈ t.children ∧ b.role = some r :=
  ⟨List.mem_of_find?_eq_some h, by simpa using List.find?_some h⟩

theorem mem_children_of_named (h : c ∈ t.named) : c ∈ t.children := List.mem_of_mem_filter h

theorem nodes_eq (t : Tree) : t.nodes = t :: nodesOf t.children := by
  cases t
  rw [nodes]
  rfl

theorem nodesOf_eq (ts : List Tree) : nodesOf ts = ts.flatMap nodes := by
  induction ts with
  | nil => rfl
  | cons t ts ih => rw [nodesOf, ih, List.flatMap_cons]

theorem mem_nodesOf : n ∈ nodesOf ts ↔ ∃ t ∈ ts, n ∈ t.nodes := by
  induction ts with
  | nil => simp [nodesOf]
  | cons t ts ih => simp [nodesOf, ih]

theorem mem_nodes : n ∈ t.nodes ↔ n = t ∨ ∃ c ∈ t.children, n ∈ c.nodes := by
  rw [nodes_eq, List.mem_cons, mem_nodesOf]

theorem self_mem_nodes (t : Tree) : t ∈ t.nodes := mem_nodes.2 (.inl rfl)

theorem nodes_subset (h : c ∈ t.children) : ∀ n ∈ c.nodes, n ∈ t.nodes :=
  fun _ hn => mem_nodes.2 (.inr ⟨c, h, hn⟩)

theorem mem_nodes_of_child (h : c ∈ t.children) : c ∈ t.nodes := nodes_subset h c c.self_mem_nodes

/-- What stands below a node below another node stands below that. -/
theorem mem_nodes_trans (hu : u ∈ t.nodes) (hn : n ∈ u.nodes) : n ∈ t.nodes := by
  induction t using Tree.induction with
  | node l r span ts ih =>
    rcases mem_nodes.1 hu with rfl | ⟨c, hc, hu⟩
    · exact hn
    · exact nodes_subset hc n (ih c hc hu)

/-- A node without children is all that stands below it. -/
theorem eq_of_mem_nodes (h : t.children = []) (hn : n ∈ t.nodes) : n = t := by
  rcases mem_nodes.1 hn with rfl | ⟨c, hc, -⟩
  · rfl
  · simp [h] at hc

/-! ### Wrappers -/

theorem bareFirst_eq (ts : List Tree) :
    bareFirst ts = ((ts.filter fun c => c.isNamed && !c.is .comment).head?).map bare := by
  induction ts with
  | nil => rfl
  | cons t ts ih =>
    rw [bareFirst, List.filter_cons]
    split
    · rfl
    · exact ih

theorem bare_eq (t : Tree) :
    t.bare = if t.isWrapper then (t.firstNamed?.map bare).getD t else t := by
  obtain ⟨l, r, span, ts⟩ := t
  rw [bare, bareFirst_eq]
  rfl

theorem bare_mem_nodes (t : Tree) : t.bare ∈ t.nodes := by
  induction t using Tree.induction with
  | node l r span ts ih =>
    rw [bare_eq]
    split
    · cases h : (node l r span ts).firstNamed? with
      | none => exact self_mem_nodes _
      | some c =>
        have hc : c ∈ ts := mem_children_of_named (List.mem_of_head? h)
        exact mem_nodes.2 (.inr ⟨c, hc, ih c hc⟩)
    · exact self_mem_nodes _

/-! ### Walks -/

variable {σ : Type}

mutual

/-- A walk that leaves out nothing visits the nodes in reading order. -/
theorem walkWith_fst (down : Tree → σ → Tree → σ) (s : σ) (t : Tree) :
    (t.walkWith down (fun _ _ => .enter) s).map Prod.fst = t.nodes := by
  match t with
  | .node l r span ts =>
    rw [walkWith, nodes, List.map_cons, walkChildrenWith_fst]

theorem walkChildrenWith_fst (down : Tree → σ → Tree → σ) (parent : Tree) (s : σ)
    (ts : List Tree) :
    (walkChildrenWith down (fun _ _ => .enter) parent s ts).map Prod.fst = nodesOf ts := by
  match ts with
  | [] => rfl
  | t :: ts =>
    rw [walkChildrenWith, nodesOf, List.map_append, walkWith_fst, walkChildrenWith_fst]

end

variable {visit : Tree → Visit}

theorem walkChildren_eq (visit : Tree → Visit) (ts : List Tree) :
    walkChildren visit ts = ts.flatMap (·.walk visit) := by
  induction ts with
  | nil => rfl
  | cons t ts ih => rw [walkChildren, ih, List.flatMap_cons]

theorem walk_eq (visit : Tree → Visit) (t : Tree) : t.walk visit =
    match visit t with
    | .enter => t :: t.children.flatMap (·.walk visit)
    | .keep => [t]
    | .skip => [] := by
  obtain ⟨l, r, span, ts⟩ := t
  rw [walk, walkChildren_eq]
  rfl

theorem mem_nodes_of_mem_walk (h : n ∈ t.walk visit) : n ∈ t.nodes := by
  induction t using Tree.induction with
  | node l r span ts ih =>
    rw [walk_eq] at h
    split at h
    · rcases List.mem_cons.1 h with rfl | h
      · exact self_mem_nodes _
      · obtain ⟨c, hc, hn⟩ := List.mem_flatMap.1 h
        exact nodes_subset hc n (ih c hc hn)
    · exact List.mem_singleton.1 h ▸ self_mem_nodes _
    · simp at h

/-- A walk comes by every node, or by one around it that it does not enter. -/
theorem mem_walk (visit : Tree → Visit) (h : n ∈ t.nodes) : n ∈ t.walk visit ∨
    (∃ u ∈ t.walk visit, visit u = .keep ∧ n ∈ u.nodes) ∨
      ∃ u ∈ t.nodes, visit u = .skip ∧ n ∈ u.nodes := by
  induction t using Tree.induction with
  | node l r span ts ih =>
    rw [walk_eq]
    cases hv : visit (node l r span ts) with
    | skip => exact .inr (.inr ⟨_, self_mem_nodes _, hv, h⟩)
    | keep => exact .inr (.inl ⟨_, List.mem_singleton_self _, hv, h⟩)
    | enter =>
      rcases mem_nodes.1 h with rfl | ⟨c, hc, hn⟩
      · exact .inl List.mem_cons_self
      · -- What holds below a child holds below the node.
        have hsub : ∀ u ∈ c.walk visit,
            u ∈ node l r span ts :: ts.flatMap (·.walk visit) := fun u hu =>
          List.mem_cons_of_mem _ (List.mem_flatMap.2 ⟨c, hc, hu⟩)
        rcases ih c hc hn with hn | ⟨u, hu, hk, hn⟩ | ⟨u, hu, hs, hn⟩
        · exact .inl (hsub n hn)
        · exact .inr (.inl ⟨u, hsub u hu, hk, hn⟩)
        · exact .inr (.inr ⟨u, nodes_subset hc u hu, hs, hn⟩)

/-! ### Nodes on the text -/

theorem laid_of_mem_nodes (ht : t.Laid) (hu : u ∈ t.nodes) :
    u.Laid ∧ t.start ≤ u.start ∧ u.stop ≤ t.stop := by
  induction t using Tree.induction with
  | node l r span ts ih =>
    rcases mem_nodes.1 hu with rfl | ⟨c, hc, hu⟩
    · exact ⟨ht, Nat.le_refl _, Nat.le_refl _⟩
    · obtain ⟨hlaid, hstart, hstop⟩ := ht.children.laid_of_mem hc
      obtain ⟨hu, h1, h2⟩ := ih c hc hlaid hu
      exact ⟨hu, Nat.le_trans hstart h1, Nat.le_trans h2 hstop⟩

/-- What stands below a node whose children are laid out is laid out, or it is the node itself. -/
theorem eq_or_laid_of_mem_nodes (h : LaidFrom t.start t.children t.stop) (hu : u ∈ t.nodes) :
    u = t ∨ u.Laid ∧ t.start ≤ u.start := by
  rcases mem_nodes.1 hu with rfl | ⟨c, hc, hu⟩
  · exact .inl rfl
  · obtain ⟨hlaid, hstart, -⟩ := h.laid_of_mem hc
    obtain ⟨hulaid, hcu, -⟩ := laid_of_mem_nodes hlaid hu
    exact .inr ⟨hulaid, Nat.le_trans hstart hcu⟩

theorem children_of_mem_nodes (h : LaidFrom t.start t.children t.stop) (hu : u ∈ t.nodes) :
    LaidFrom u.start u.children u.stop ∧ t.start ≤ u.start := by
  rcases eq_or_laid_of_mem_nodes h hu with rfl | ⟨hlaid, hstart⟩
  · exact ⟨h, Nat.le_refl _⟩
  · exact ⟨hlaid.children, hstart⟩

/-- Of trees that are laid out one after the other, two overlap only if they are the same. -/
theorem eq_of_overlap {lo hi : Nat} (h : LaidFrom lo ts hi) (hu : u ∈ ts) (hv : v ∈ ts)
    (h1 : u.start < v.stop) (h2 : v.start < u.stop) : u = v := by
  induction ts generalizing lo with
  | nil => simp at hu
  | cons t ts ih =>
    rw [laidFrom_cons] at h
    rcases List.mem_cons.1 hu with rfl | hu' <;> rcases List.mem_cons.1 hv with rfl | hv'
    · rfl
    · have := (h.2.2.laid_of_mem hv').2.1
      omega
    · have := (h.2.2.laid_of_mem hu').2.1
      omega
    · exact ih h.2.2 hu' hv'

/-- **Of two nodes that overlap one stands inside the other.** -/
theorem nested_of_laidFrom (h : LaidFrom t.start t.children t.stop) (hu : u ∈ t.nodes)
    (hv : v ∈ t.nodes) (h1 : v.start ≤ u.start) (h2 : u.start < v.stop) :
    u ∈ v.nodes ∨ v ∈ u.nodes := by
  induction t using Tree.induction with
  | node l r span ts ih =>
    rcases mem_nodes.1 hu with rfl | ⟨c, hc, huc⟩
    · exact .inr hv
    · rcases mem_nodes.1 hv with rfl | ⟨d, hd, hvd⟩
      · exact .inl hu
      · have hclaid := (h.laid_of_mem hc).1
        obtain ⟨hulaid, hcu, huc'⟩ := laid_of_mem_nodes hclaid huc
        obtain ⟨hvlaid, hdv, hvd'⟩ := laid_of_mem_nodes (h.laid_of_mem hd).1 hvd
        have hult := hulaid.lt
        obtain rfl : c = d := eq_of_overlap h hc hd (by omega) (by omega)
        exact ih c hc hclaid.children huc hvd

/-- What holds values begins before them. -/
theorem start_lt_of_isValue (h : t.Laid) {k : Kind} (hk : t.label = .rule k) (hholder : k.holder)
    (hv : v ∈ t.children) (hvalue : v.isValue) : t.start < v.start := by
  have hformed := h.formed
  have hlaid := h.children
  rw [hk, formed_holder hholder] at hformed
  cases hts : t.children with
  | nil => simp [hts] at hv
  | cons w ws =>
    rw [hts] at hv hlaid
    rw [laidFrom_cons] at hlaid
    rcases List.mem_cons.1 hv with rfl | hv
    · have := hformed v (by rw [hts]; rfl)
      simp [hvalue] at this
    · have := (hlaid.2.2.laid_of_mem hv).2.1
      have := hlaid.2.1.lt
      omega

/-- **What begins inside a value stands inside it.** -/
theorem mem_nodes_of_isValue {p : Tree} (h : LaidFrom t.start t.children t.stop) (hp : p ∈ t.nodes)
    (hlaid : p.Laid) {k : Kind} (hk : p.label = .rule k) (hholder : k.holder) (hv : v ∈ p.children)
    (hvalue : v.isValue) (hu : u ∈ t.nodes) (h1 : v.start ≤ u.start) (h2 : u.start < v.stop) :
    u ∈ v.nodes := by
  have hlt := start_lt_of_isValue hlaid hk hholder hv hvalue
  have hstop := (hlaid.children.laid_of_mem hv).2.2
  rcases nested_of_laidFrom h hu (mem_nodes_trans hp (mem_nodes_of_child hv)) h1 h2 with hin | hout
  · exact hin
  · -- What is around the value and begins with it is below what holds the value.
    rcases nested_of_laidFrom h hu hp (by omega) (by omega) with hup | hpu
    · rcases mem_nodes.1 hup with rfl | ⟨c, hc, huc⟩
      · omega
      · have hclaid := (hlaid.children.laid_of_mem hc).1
        obtain ⟨hulaid, hcu, huc'⟩ := laid_of_mem_nodes hclaid huc
        have hult := hulaid.lt
        have hvlt := (laid_of_mem_nodes hulaid hout).1.lt
        obtain rfl : c = v := eq_of_overlap hlaid.children hc hv (by omega) (by omega)
        exact huc
    · have := (children_of_mem_nodes (children_of_mem_nodes h hu).1 hpu).2
      omega

end Syntax.Tree

/-! ### Texts of nodes -/

theorem Syntax.sliceOf_eq (text : Chars) (i j : Nat) :
    sliceOf text ⟨i, j⟩ = (text.toList.take j).drop i := by
  simp [sliceOf, List.drop_take]

/-- The text of a node contains those of the nodes below it. -/
theorem Syntax.Source.chars_infix (s : Source) {t n : Tree} (ht : t.Laid) (hn : n ∈ t.nodes) :
    s.chars n <:+: s.chars t := by
  obtain ⟨hlaid, hstart, hstop⟩ := Tree.laid_of_mem_nodes ht hn
  have hlt := hlaid.lt
  have heq : s.chars n = ((s.chars t).take (n.stop - t.start)).drop (n.start - t.start) := by
    show sliceOf s.text ⟨n.start, n.stop⟩ =
      ((sliceOf s.text ⟨t.start, t.stop⟩).take (n.stop - t.start)).drop (n.start - t.start)
    have hwidth : t.start + (n.stop - t.start) = n.stop := by omega
    rw [sliceOf_eq, sliceOf_eq, List.take_drop, List.drop_drop, List.take_take, hwidth,
      Nat.add_sub_cancel' hstart, Nat.min_eq_left hstop]
  rw [heq]
  exact (List.drop_suffix _ _).isInfix.trans (List.take_prefix _ _).isInfix

end FlowAnalysis
