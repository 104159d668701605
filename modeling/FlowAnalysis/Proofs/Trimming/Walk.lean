import FlowAnalysis.Proofs.Trimming.Tree
import Mathlib.Data.List.Forall2

/-!
# Walks through trimmed sources

A search that counts only loud nodes, and that finds in a wrapper what it finds in the expression
inside it, finds in a trimmed source the nodes in the places of those that it finds in the source.

## Main definitions

* `Search` — a walk, and which of the nodes that it visits count.
* `Trimming.Blind` — a search that does not see what is taken off.

## Main results

* `Trimming.Blind.forall₂_found` — **a blind search finds the same nodes in a trimmed source.**
* `Trimming.Matches.forall₂_walk`, `Trimming.Part.forall₂_walkBelow`,
  `Trimming.Matches.forall₂_nodes` — the same for walks without a context.
-/

namespace FlowAnalysis.Syntax

/-! ### Walks, child by child -/

namespace Tree

variable {σ : Type}

theorem walkWith_eq (down : Tree → σ → Tree → σ) (visit : σ → Tree → Visit) (s : σ) (t : Tree) :
    t.walkWith down visit s =
      match visit s t with
      | .enter => (t, s) :: t.children.flatMap fun c => c.walkWith down visit (down t s c)
      | .keep => [(t, s)]
      | .skip => [] := by
  have hchildren : ∀ (p : Tree) (ts : List Tree), walkChildrenWith down visit p s ts =
      ts.flatMap fun c => c.walkWith down visit (down p s c) := by
    intro p ts
    induction ts with
    | nil => rfl
    | cons t ts ih => rw [walkChildrenWith, ih, List.flatMap_cons]
  obtain ⟨l, r, span, ts⟩ := t
  rw [walkWith, hchildren]
  rfl

/-- A walk whose visits do not look at the context is one without. -/
theorem map_fst_walkWith (down : Tree → σ → Tree → σ) (visit : Tree → Visit) (s : σ) (t : Tree) :
    (t.walkWith down (fun _ => visit) s).map Prod.fst = t.walk visit := by
  induction t using Tree.induction generalizing s with
  | node l r span ts ih =>
    rw [walkWith_eq, walk_eq]
    cases visit (.node l r span ts) with
    | keep => rfl
    | skip => rfl
    | enter =>
      rw [List.map_cons, List.map_flatMap]
      exact congrArg _ (List.flatMap_congr fun c hc => ih c hc _)

theorem walk_enter (t : Tree) : (t.walk fun _ => .enter) = t.nodes := by
  rw [← map_fst_walkWith (fun _ _ _ => ()) _ (), walkWith_fst]

/-- Where only one child of a node has anything, the children have what that has. -/
theorem flatMap_children {β : Type} {F : Tree → List β} {t e : Tree} (h : t.firstNamed? = some e)
    (hnone : ∀ c ∈ besides t.children, F c = []) : t.children.flatMap F = F e := by
  have hlist : ∀ ts : List Tree, (ts.filter fun c => c.isNamed && !c.is .comment).head? = some e →
      (∀ c ∈ besides ts, F c = []) → ts.flatMap F = F e := by
    intro ts
    induction ts with
    | nil => simp
    | cons c cs ih =>
      intro hfirst hnone
      rw [List.filter_cons] at hfirst
      rw [besides] at hnone
      rw [List.flatMap_cons]
      split at hfirst
      · next hc =>
        rw [if_pos hc] at hnone
        obtain rfl : c = e := by simpa using hfirst
        rw [List.flatMap_eq_nil_iff.2 hnone, List.append_nil]
      · next hc =>
        rw [if_neg hc, List.forall_mem_cons] at hnone
        rw [hnone.1, ih hfirst hnone.2, List.nil_append]
  exact hlist t.children h hnone

end Tree

/-- A walk, and which of the nodes that it visits count. -/
structure Search (σ : Type) where
  down : Tree → σ → Tree → σ
  visit : σ → Tree → Visit
  counts : σ → Tree → Bool

namespace Search

variable {σ : Type} (w : Search σ)

/-- The nodes that count. -/
def found (s : σ) (t : Tree) : List Tree :=
  ((t.walkWith w.down w.visit s).filter fun n => w.counts n.2 n.1).map Prod.fst

theorem found_eq (s : σ) (t : Tree) : w.found s t =
    match w.visit s t with
    | .enter =>
      (if w.counts s t then [t] else []) ++ t.children.flatMap fun c => w.found (w.down t s c) c
    | .keep => if w.counts s t then [t] else []
    | .skip => [] := by
  have hself : (([(t, s)].filter fun n => w.counts n.2 n.1).map Prod.fst) =
      if w.counts s t then [t] else [] := by
    rw [List.filter_singleton]
    cases w.counts s t <;> rfl
  unfold found
  rw [Tree.walkWith_eq]
  cases w.visit s t with
  | enter =>
    show ((([(t, s)] ++ t.children.flatMap _).filter _).map _) = _
    rw [List.filter_append, List.map_append, hself, List.filter_flatMap, List.map_flatMap]
  | keep => exact hself
  | skip => rfl

/-- Nothing is found where no node counts. -/
theorem found_eq_nil {t : Tree} (h : ∀ s, ∀ n ∈ t.nodes, w.counts s n = false) (s : σ) :
    w.found s t = [] := by
  induction t using Tree.induction generalizing s with
  | node l r span ts ih =>
    have hself : w.counts s (.node l r span ts) = false := h s _ (Tree.self_mem_nodes _)
    have hchildren : ∀ s, ∀ c ∈ ts, w.found s c = [] := fun s c hc =>
      ih c hc (fun s n hn => h s n (Tree.nodes_subset hc n hn)) s
    rw [found_eq, hself]
    split
    · exact List.flatMap_eq_nil_iff.2 fun c hc => hchildren _ c hc
    · rfl
    · rfl

/-- Nothing is found in a quiet tree. -/
theorem found_of_isQuiet (hquiet : ∀ s t, t.isAny loudKinds = false → w.counts s t = false) (s : σ)
    {t : Tree} (ht : t.isQuiet) : w.found s t = [] := by
  simp only [Tree.isQuiet, List.all_eq_true, Bool.not_eq_true'] at ht
  exact w.found_eq_nil (fun s n hn => hquiet s n (ht n hn)) s

/-- The search for the nodes that count on a walk without a context. -/
def plain (visit : Tree → Visit) (counts : Tree → Bool) : Search Unit :=
  ⟨fun _ _ _ => (), fun _ => visit, fun _ => counts⟩

theorem found_plain (visit : Tree → Visit) (counts : Tree → Bool) (t : Tree) :
    (plain visit counts).found () t = (t.walk visit).filter counts := by
  rw [← Tree.map_fst_walkWith (fun _ _ _ => ()) visit () t, List.filter_map]
  rfl

end Search

namespace Trimming

variable {P : Trimming} {s' s : Source} {σ : Type} {t u v c e : Tree}

/-! ### Blind searches -/

/-- A search does not see what is taken off, where another one searches the trimmed source.  The
contexts in which the two come by nodes in the same places are related. -/
structure Blind (P : Trimming) (s' s : Source) (S : σ → σ → Tree → Tree → Prop)
    (w' w : Search σ) : Prop where
  /-- Only loud nodes count. -/
  quiet' : ∀ k t, t.isAny loudKinds = false → w'.counts k t = false
  quiet : ∀ k t, t.isAny loudKinds = false → w.counts k t = false
  /-- Nodes in the same places count alike. -/
  counts_eq : ∀ {k' k u t}, P.Matches s' s u t → S k' k u t → w'.counts k' u = w.counts k t
  /-- The walks go on alike. -/
  visit_eq : ∀ {k' k u t}, P.Matches s' s u t → S k' k u t → w'.visit k' u = w.visit k t
  /-- A child has what is left of it. -/
  core : ∀ {k' k u t v c}, P.Matches s' s u t → S k' k u t → P.Part s' s t v c →
    ∃ l, S (w'.down u k' v) l v (P.core t c) ∧ w.found (w.down t k c) c = w.found l (P.core t c)

/-- What is found in the children, and in those in their places. -/
theorem Matches.forall₂_flatMap_children {α β : Type} {R : α → β → Prop} {F' : Tree → List α}
    {F : Tree → List β} (h : P.Matches s' s u t) (hremark' : ∀ c, c.isRemark → F' c = [])
    (hremark : ∀ c, c.isRemark → F c = [])
    (hpart : ∀ v c, P.Part s' s t v c → List.Forall₂ R (F' v) (F c)) :
    List.Forall₂ R (u.children.flatMap F') (t.children.flatMap F) := by
  rw [← flatMap_parts hremark', ← flatMap_parts hremark]
  exact List.rel_flatMap h.forall₂_parts hpart

theorem Search.found_of_isRemark {w : Search σ}
    (hquiet : ∀ k t, t.isAny loudKinds = false → w.counts k t = false) (k : σ)
    (h : c.isRemark) : w.found k c = [] :=
  w.found_of_isQuiet hquiet k (isQuiet_of_isRemark h)

namespace Blind

variable {S : σ → σ → Tree → Tree → Prop} {w' w : Search σ} {k' k : σ}

/-- What is found below a node, once it is known what is found in what is left of its children. -/
theorem forall₂_below (hw : P.Blind s' s S w' w) (h : P.Matches s' s u t) (hk : S k' k u t)
    (ih : ∀ c ∈ t.children, ∀ n ∈ c.nodes, ∀ {u k' k}, P.Matches s' s u n → S k' k u n →
      List.Forall₂ (P.Matches s' s) (w'.found k' u) (w.found k n)) :
    List.Forall₂ (P.Matches s' s) (u.children.flatMap fun c => w'.found (w'.down u k' c) c)
      (t.children.flatMap fun c => w.found (w.down t k c) c) := by
  refine h.forall₂_flatMap_children (fun c hc => Search.found_of_isRemark hw.quiet' _ hc)
    (fun c hc => Search.found_of_isRemark hw.quiet _ hc) fun v c hc => ?_
  obtain ⟨l, hl, hfound⟩ := hw.core h hk hc
  rw [hfound]
  exact ih c hc.mem _ (core_mem_nodes t c) hc.core hl

/-- **A blind search finds the same nodes in a trimmed source.** -/
theorem forall₂_found (hw : P.Blind s' s S w' w) (h : P.Matches s' s u t) (hk : S k' k u t) :
    List.Forall₂ (P.Matches s' s) (w'.found k' u) (w.found k t) := by
  induction t using Tree.induction_below generalizing u k' k with
  | node t ih =>
    have hself : List.Forall₂ (P.Matches s' s) (if w.counts k t then [u] else [])
        (if w.counts k t then [t] else []) := by
      split
      · exact .cons h .nil
      · exact .nil
    rw [w'.found_eq, w.found_eq, hw.visit_eq h hk, hw.counts_eq h hk]
    split
    · exact List.rel_append hself (hw.forall₂_below h hk ih)
    · exact hself
    · exact .nil

end Blind

/-! ### Walks without a context -/

/-- What stands beside the expressions in the wrappers that are taken off does not count. -/
def Deaf (P : Trimming) (s : Source) (counts : Tree → Bool) : Prop :=
  ∀ p ∈ s.root.nodes, ∀ c ∈ p.children, P.opens p c →
    ∀ d ∈ Tree.besides c.children, ∀ n ∈ d.nodes, counts n = false

section Plain

variable {visit' visit : Tree → Visit} {counts' counts : Tree → Bool}

/-- The context that there is not. -/
abbrev Anywhere (_ _ : Unit) (_ _ : Tree) : Prop := True

/-- A walk which goes through the wrappers that are taken off, or leaves them out together with the
expressions inside, comes by what is left of them. -/
theorem found_core_plain (hdeaf : P.Deaf s counts)
    (quiet : ∀ t, t.isAny loudKinds = false → counts t = false)
    (wrapper : ∀ p ∈ s.root.nodes, ∀ c ∈ p.children, ∀ e, P.Opened p c e →
      visit c = .enter ∨ visit c = .skip ∧ visit e = .skip)
    (hp : t ∈ s.root.nodes) (hc : c ∈ t.children) :
    (Search.plain visit counts).found () c = (Search.plain visit counts).found () (P.core t c) := by
  revert hp hc
  induction t, c using core_induction (P := P) with
  | keep p c h => rw [core_of_not_opens h]; exact fun _ _ => rfl
  | opened p c e h ih =>
    intro hp hc
    rw [h.core_eq, ← ih (Tree.mem_nodes_trans hp (Tree.mem_nodes_of_child hc)) h.mem_children,
      Search.found_eq]
    rcases wrapper p hp c hc e h with henter | ⟨hskip, hinside⟩
    · -- A wrapper does not count, and neither does what stands beside the expression in it.
      simp only [Search.plain, henter, quiet c h.isAny_loudKinds]
      exact Tree.flatMap_children h.first fun d hd =>
        Search.found_eq_nil _ (fun _ => hdeaf p hp c hc h.opens d hd) _
    · rw [Search.found_eq]
      simp only [Search.plain, hskip, hinside]

/-- So it is blind, if it cannot tell nodes in the same places apart. -/
theorem blind_plain (hdeaf : P.Deaf s counts)
    (quiet' : ∀ t, t.isAny loudKinds = false → counts' t = false)
    (quiet : ∀ t, t.isAny loudKinds = false → counts t = false)
    (counts_eq : ∀ u t, P.Matches s' s u t → counts' u = counts t)
    (visit_eq : ∀ u t, P.Matches s' s u t → visit' u = visit t)
    (wrapper : ∀ p ∈ s.root.nodes, ∀ c ∈ p.children, ∀ e, P.Opened p c e →
      visit c = .enter ∨ visit c = .skip ∧ visit e = .skip) :
    P.Blind s' s Anywhere (.plain visit' counts') (.plain visit counts) where
  quiet' _ := quiet'
  quiet _ := quiet
  counts_eq h _ := counts_eq _ _ h
  visit_eq h _ := visit_eq _ _ h
  core h _ hc := ⟨(), trivial, found_core_plain hdeaf quiet wrapper h.mem_nodes hc.mem⟩

/-- The nodes that count on a walk. -/
theorem Matches.forall₂_walk (h : P.Matches s' s u t)
    (hw : P.Blind s' s Anywhere (.plain visit' counts') (.plain visit counts)) :
    List.Forall₂ (P.Matches s' s) ((u.walk visit').filter counts')
      ((t.walk visit).filter counts) := by
  rw [← Search.found_plain, ← Search.found_plain]
  exact hw.forall₂_found h trivial

/-- The nodes that count on a walk which enters the root whatever it is. -/
theorem Matches.forall₂_walkBelow (h : P.Matches s' s u t)
    (hw : P.Blind s' s Anywhere (.plain visit' counts') (.plain visit counts)) :
    List.Forall₂ (P.Matches s' s) ((u.walkBelow visit').filter counts')
      ((t.walkBelow visit).filter counts) := by
  have hanywhere : Anywhere () () u t := trivial
  have hcounts : counts' u = counts t := hw.counts_eq h hanywhere
  have hchildren : List.Forall₂ (P.Matches s' s)
      (u.children.flatMap fun c => (c.walk visit').filter counts')
      (t.children.flatMap fun c => (c.walk visit).filter counts) := by
    simp only [← Search.found_plain]
    exact hw.forall₂_below h hanywhere fun _ _ _ _ {_ _ _} hn hk =>
      hw.forall₂_found hn hk
  rw [Tree.walkBelow, Tree.walkBelow, Tree.walkChildren_eq, Tree.walkChildren_eq, List.filter_cons,
    List.filter_cons, List.filter_flatMap, List.filter_flatMap, hcounts]
  split
  · exact .cons h hchildren
  · exact hchildren

/-- The same for a child, where the walk enters the wrappers that are taken off and the expression
inside. -/
theorem Part.forall₂_walkBelow (h : P.Part s' s t v c)
    (hw : P.Blind s' s Anywhere (.plain visit' counts') (.plain visit counts))
    (henter : P.opens t c → visit c = .enter ∧ visit (P.core t c) = .enter) :
    List.Forall₂ (P.Matches s' s) ((v.walkBelow visit').filter counts')
      ((c.walkBelow visit).filter counts) := by
  have hwalk : ∀ (visit : Tree → Visit) (t : Tree), visit t = .enter →
      t.walkBelow visit = t.walk visit := by
    intro visit t ht
    rw [Tree.walk_eq, ht, Tree.walkBelow, Tree.walkChildren_eq]
  have hcore := h.core
  obtain ⟨u, ht, -⟩ := id h
  by_cases hopens : P.opens t c
  · -- All the roots are entered, so the walks below them are walks.
    obtain ⟨hc, hinside⟩ := henter hopens
    have hanywhere : ∀ u t, Anywhere () () u t := fun _ _ => trivial
    have hv : visit' v = visit (P.core t c) := hw.visit_eq hcore (hanywhere v _)
    obtain ⟨_, -, hfound⟩ := hw.core ht (hanywhere u t) h
    rw [hwalk visit' v (hv.trans hinside), hwalk visit c hc, ← Search.found_plain visit,
      show (Search.plain visit counts).found () c = _ from hfound, Search.found_plain]
    exact hcore.forall₂_walk hw
  · rw [core_of_not_opens hopens] at hcore
    exact hcore.forall₂_walkBelow hw

/-- The nodes of loud kinds. -/
theorem Matches.forall₂_nodes (h : P.Matches s' s u t) {ks : List Kind}
    (hks : ∀ k ∈ ks, k ∈ loudKinds) (hdeaf : P.Deaf s (·.isAny ks)) :
    List.Forall₂ (P.Matches s' s) (u.nodes.filter (·.isAny ks)) (t.nodes.filter (·.isAny ks)) := by
  rw [← Tree.walk_enter, ← Tree.walk_enter]
  exact h.forall₂_walk (blind_plain hdeaf (fun _ => Tree.isAny_eq_false_of_subset hks)
    (fun _ => Tree.isAny_eq_false_of_subset hks) (fun _ _ ht => ht.isAny_eq ks) (fun _ _ _ => rfl)
    fun _ _ _ _ _ _ => .inl rfl)

end Plain

end Trimming

end FlowAnalysis.Syntax
