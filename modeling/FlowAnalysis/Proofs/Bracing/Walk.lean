import FlowAnalysis.Proofs.Bracing.Twins
import FlowAnalysis.Proofs.Trimming.Walk

/-!
# Walks through a source and its normal form

A walk through the normal form comes by the twins of the nodes that the same walk through the source
comes by, in the same order.  Between them it comes by the blocks around promoted bodies.  Where it
enters those, it finds the same; where it leaves some of them out, it may find less.

## Main definitions

* `Thins` — related lists, the first of which may lack elements.
* `Search.Follows` — a search in the normal form does what a search in the source does.

## Main results

* `Search.Follows.thins` — **what is found in the normal form are the twins of what is found in the
  source.**
* `Twin.forall₂_walk`, `Twin.forall₂_nodes` — walks without a context.
-/

namespace FlowAnalysis

open Syntax

/-! ### Lists that may lack elements -/

/-- The elements of a list are related to those of another list one by one, and the first list may
lack elements unless it is to be exact. -/
def Thins {α β : Type} (exact : Prop) (R : α → β → Prop) (l' : List α) (l : List β) : Prop :=
  ∃ m, List.Forall₂ R l' m ∧ m.Sublist l ∧ (exact → m = l)

namespace Thins

variable {α β γ δ : Type} {exact : Prop} {R : α → β → Prop} {T : γ → δ → Prop} {l' l₁' : List α}
  {l l₁ : List β}

theorem of_forall₂ (h : List.Forall₂ R l' l) : Thins exact R l' l :=
  ⟨l, h, List.Sublist.refl l, fun _ => rfl⟩

theorem forall₂ (h : Thins exact R l' l) (hexact : exact) : List.Forall₂ R l' l := by
  obtain ⟨m, hm, -, heq⟩ := h
  exact heq hexact ▸ hm

theorem imp {R' : α → β → Prop} (h : Thins exact R l' l) (hR : ∀ x' x, R x' x → R' x' x) :
    Thins exact R' l' l := by
  obtain ⟨m, hm, hsub, heq⟩ := h
  exact ⟨m, hm.imp hR, hsub, heq⟩

/-- Where the same is made of related elements, what lacks elements makes a list that does. -/
theorem sublist_map {F' : α → γ} {F : β → γ} (h : Thins exact R l' l)
    (hF : ∀ x' x, R x' x → F' x' = F x) : (l'.map F').Sublist (l.map F) := by
  obtain ⟨m, hm, hsub, -⟩ := h
  rw [hm.map_eq hF]
  exact hsub.map F

theorem append (h : Thins exact R l' l) (h₁ : Thins exact R l₁' l₁) :
    Thins exact R (l' ++ l₁') (l ++ l₁) := by
  obtain ⟨m, hm, hsub, heq⟩ := h
  obtain ⟨m₁, hm₁, hsub₁, heq₁⟩ := h₁
  exact ⟨m ++ m₁, List.rel_append hm hm₁, hsub.append hsub₁, fun hexact => by
    rw [heq hexact, heq₁ hexact]⟩

/-- A list that is not to be exact may lack everything. -/
theorem nil (h : exact → l = []) : Thins exact R ([] : List α) l :=
  ⟨[], .nil, List.nil_sublist l, fun hexact => (h hexact).symm⟩

/-- What lacks elements of a part of a list lacks elements of the list. -/
theorem mono (h : Thins False R l' l₁) (hsub : l₁.Sublist l) : Thins False R l' l := by
  obtain ⟨m, hm, hm', -⟩ := h
  exact ⟨m, hm, hm'.trans hsub, False.elim⟩

theorem flatMap_forall₂ {F' : α → List γ} {F : β → List δ} (h : List.Forall₂ R l' l)
    (hF : ∀ x' x, R x' x → Thins exact T (F' x') (F x)) :
    Thins exact T (l'.flatMap F') (l.flatMap F) := by
  induction h with
  | nil => exact of_forall₂ .nil
  | cons hx _ ih =>
    rw [List.flatMap_cons, List.flatMap_cons]
    exact (hF _ _ hx).append ih

theorem flatMap {F' : α → List γ} {F : β → List δ} (h : Thins exact R l' l)
    (hF : ∀ x' x, R x' x → List.Forall₂ T (F' x') (F x)) :
    Thins exact T (l'.flatMap F') (l.flatMap F) := by
  obtain ⟨m, hm, hsub, heq⟩ := h
  refine ⟨m.flatMap F, List.rel_flatMap hm fun _ _ => hF _ _, hsub.flatMap F, fun hexact => ?_⟩
  rw [heq hexact]

theorem map {F' : α → γ} {F : β → δ} (h : Thins exact R l' l) (hF : ∀ x' x, R x' x → T (F' x') (F x)) :
    Thins exact T (l'.map F') (l.map F) := by
  obtain ⟨m, hm, hsub, heq⟩ := h
  refine ⟨m.map F, ?_, hsub.map F, fun hexact => by rw [heq hexact]⟩
  rw [List.forall₂_map_left_iff, List.forall₂_map_right_iff]
  exact hm.imp hF

theorem filter {p' : α → Bool} {p : β → Bool} (h : Thins exact R l' l)
    (hp : ∀ x' x, R x' x → p' x' = p x) : Thins exact R (l'.filter p') (l.filter p) := by
  obtain ⟨m, hm, hsub, heq⟩ := h
  exact ⟨m.filter p, hm.filter hp, hsub.filter p, fun hexact => by rw [heq hexact]⟩

end Thins

/-! ### Nodes at which nothing is found -/

namespace Syntax.Tree

variable {t c : Tree}

/-- Whether the node is a comment, a block, a keyword or a punctuation mark. -/
def isSilent (t : Tree) : Bool := t.isAny [.comment, .statementBlock] || !t.isNamed

theorem isSilent_of_isComment (h : c.isComment) : c.isSilent := by
  simp [isSilent, isAny, is, (isComment_iff.1 h).1]

theorem isSilent_of_block (h : t.label = .rule .statementBlock) : t.isSilent := by
  simp [isSilent, isAny, is, h]

theorem is_of_isSilent {k : Kind} (hk : k ≠ .comment ∧ k ≠ .statementBlock) (h : t.isSilent) :
    t.is k = false := by
  by_contra hkind
  have hlabel : t.label = .rule k := is_iff.1 (by simpa using hkind)
  simp [isSilent, isAny, isNamed, is, hlabel, hk.1, hk.2] at h

theorem isAny_of_isSilent {ks : List Kind} (hks : ∀ k ∈ ks, k ≠ .comment ∧ k ≠ .statementBlock)
    (h : t.isSilent) : t.isAny ks = false :=
  List.any_eq_false.2 fun k hk => by simp [is_of_isSilent (hks k hk) h]

/-- Nothing comes of the comments among some trees, whichever of them are left out. -/
theorem flatMap_filter_eq {β : Type} {F : Tree → List β} {q : Tree → Bool} (ts : List Tree)
    (hq : ∀ c, q c = false → c.isComment) (hF : ∀ c, c.isComment → F c = []) :
    (ts.filter q).flatMap F = ts.flatMap F := by
  induction ts with
  | nil => rfl
  | cons c cs ih =>
    rw [List.flatMap_cons, ← ih, List.filter_cons]
    split
    · rw [List.flatMap_cons]
    · next hc => rw [hF c (hq c (by simpa using hc)), List.nil_append]

theorem flatMap_parts {β : Type} {F : Tree → List β} (hF : ∀ c, c.isComment → F c = []) :
    t.parts.flatMap F = t.children.flatMap F :=
  flatMap_filter_eq t.children (fun _ hc => isComment_of_isFloating (by simpa using hc)) hF

theorem flatMap_uncommented {β : Type} {F : Tree → List β} (hF : ∀ c, c.isComment → F c = []) :
    t.uncommented.flatMap F = t.children.flatMap F :=
  flatMap_filter_eq t.children (fun _ hc => by simpa using hc) hF

end Syntax.Tree

/-! ### Searches -/

namespace Syntax.Search

variable {σ : Type} {s' s : Source} {exact : Prop} {S : σ → σ → Prop} {w' w : Search σ}

/-- The nodes that count, each with its context. -/
def visited (w : Search σ) (c : σ) (t : Tree) : List (Tree × σ) :=
  (t.walkWith w.down w.visit c).filter fun n => w.counts n.2 n.1

/-- The nodes that count below a node which is entered whatever it is. -/
def visitedBelow (w : Search σ) (c : σ) (t : Tree) : List (Tree × σ) :=
  t.children.flatMap fun u => w.visited (w.down t c u) u

theorem visited_eq (w : Search σ) (c : σ) (t : Tree) : w.visited c t =
    match w.visit c t with
    | .enter => (if w.counts c t then [(t, c)] else []) ++ w.visitedBelow c t
    | .keep => if w.counts c t then [(t, c)] else []
    | .skip => [] := by
  have hself : [(t, c)].filter (fun n => w.counts n.2 n.1) =
      if w.counts c t then [(t, c)] else [] := by
    rw [List.filter_singleton]
    cases w.counts c t <;> rfl
  rw [visited, Tree.walkWith_eq]
  cases w.visit c t with
  | enter =>
    show ([(t, c)] ++ t.children.flatMap _).filter _ = _
    rw [List.filter_append, hself, List.filter_flatMap]
    rfl
  | keep => exact hself
  | skip => rfl

/-- Nothing is found at a node without parts that does not count. -/
theorem visited_eq_nil {c : σ} {t : Tree} (hcounts : w.counts c t = false)
    (hchildren : t.children = []) : w.visited c t = [] := by
  rw [visited_eq, visitedBelow, hchildren, hcounts]
  cases w.visit c t <;> rfl

/-- A search in the normal form does what a search in the source does. -/
structure Follows (exact : Prop) (s' s : Source) (S : σ → σ → Prop) (w' w : Search σ) : Prop where
  silent' : ∀ c t, t.isSilent → w'.counts c t = false
  silent : ∀ c t, t.isSilent → w.counts c t = false
  counts_eq : ∀ {c' c : σ} {t' t : Tree}, S c' c → Twin s' s t' t →
    w'.counts c' t' = w.counts c t
  visit_eq : ∀ {c' c : σ} {t' t : Tree}, S c' c → Twin s' s t' t → w'.visit c' t' = w.visit c t
  /-- From a node to a child it takes the same context. -/
  down : ∀ {c' c : σ} {t' t u' u : Tree}, S c' c → Twin s' s t' t → Twin s' s u' u →
    u'.role = u.role → S (w'.down t' c' u') (w.down t c u)
  /-- Through the block around a body it takes the context of the body, and it enters the block. -/
  block : ∀ {c' c : σ} {t' t u' u : Tree}, S c' c → Twin s' s t' t → t.bareBody? = some u →
    TwinPart s' s t' t u' u → (exact → w'.visit (w'.down t' c' u') u' = .enter) ∧
      S (w'.down u' (w'.down t' c' u') u'.onlyStatement) (w.down t c u)

namespace Follows

variable (hw : Follows exact s' s S w' w)

include hw

/-- What is found in the children of twins, once it is known what is found in each of them. -/
theorem thins_below {c' c : σ} {t' t : Tree} (hc : S c' c) (h : Twin s' s t' t)
    (ih : ∀ u ∈ t.children, ∀ {c' c : σ} {u' : Tree}, S c' c → Twin s' s u' u →
      Thins exact (fun x' x => Twin s' s x'.1 x.1 ∧ S x'.2 x.2) (w'.visited c' u')
        (w.visited c u)) :
    Thins exact (fun x' x => Twin s' s x'.1 x.1 ∧ S x'.2 x.2) (w'.visitedBelow c' t')
      (w.visitedBelow c t) := by
  have hcomment' : ∀ (c : σ) (p u : Tree), u.isComment → w'.visited (w'.down p c u) u = [] :=
    fun c p u hu => visited_eq_nil (hw.silent' _ u (Tree.isSilent_of_isComment hu))
      (Tree.isComment_iff.1 hu).2.2
  have hcomment : ∀ (c : σ) (p u : Tree), u.isComment → w.visited (w.down p c u) u = [] :=
    fun c p u hu => visited_eq_nil (hw.silent _ u (Tree.isSilent_of_isComment hu))
      (Tree.isComment_iff.1 hu).2.2
  unfold visitedBelow
  rw [← Tree.flatMap_parts (hcomment' c' t'), ← Tree.flatMap_parts (hcomment c t)]
  refine Thins.flatMap_forall₂ h.forall₂_parts fun u' u hpart => ?_
  have htwin := hpart.twin
  by_cases hbody : t.bareBody? = some u
  · -- Around a body there is a block, at which nothing is found but what is found in the body.
    obtain ⟨henter, hcontext⟩ := hw.block hc h hbody hpart
    rw [Tree.unblocked, if_pos hbody] at htwin
    obtain ⟨hlabel, left, right, hparts, hleft, hright⟩ :=
      Tree.uncommented_of_isBlockOfOne (hpart.block hbody)
    have hblock := Tree.isSilent_of_block hlabel
    have hmark : ∀ mark ∈ u'.uncommented, ∀ text, mark.label = .token text →
        ∀ c, w'.visited c mark = [] := by
      intro mark hmem text hmark c
      have hlaid := (h.laid_of_mem_children' hpart.mem').children.laid_of_mem
        (List.mem_of_mem_filter hmem)
      have hformed := hlaid.1.formed
      rw [hmark, formed_token] at hformed
      refine visited_eq_nil (hw.silent' _ _ ?_) hformed
      simp [Tree.isSilent, Tree.isNamed, hmark]
    rw [visited_eq, hw.silent' _ _ hblock]
    cases hvisit : w'.visit (w'.down t' c' u') u' with
    | enter =>
      unfold visitedBelow
      rw [← Tree.flatMap_uncommented (hcomment' _ u'), hparts]
      simp only [List.flatMap_cons, List.flatMap_nil, List.append_nil, List.nil_append,
        hmark left (by simp [hparts]) _ hleft, hmark right (by simp [hparts]) _ hright,
        Bool.false_eq_true, if_false]
      exact ih u hpart.mem hcontext htwin
    | keep => exact .nil fun hexact => by simp [henter hexact] at hvisit
    | skip => exact .nil fun hexact => by simp [henter hexact] at hvisit
  · rw [Tree.unblocked, if_neg hbody] at htwin
    exact ih u hpart.mem (hw.down hc h htwin hpart.role) htwin

/-- **What is found in the normal form are the twins of what is found in the source.** -/
theorem thins {c' c : σ} {t' t : Tree} (hc : S c' c) (h : Twin s' s t' t) :
    Thins exact (fun x' x => Twin s' s x'.1 x.1 ∧ S x'.2 x.2) (w'.visited c' t')
      (w.visited c t) := by
  induction t using Tree.induction generalizing t' c' c with
  | node l r span ts ih =>
    have hself : Thins exact (fun x' x => Twin s' s x'.1 x.1 ∧ S x'.2 x.2)
        (if w'.counts c' t' then [(t', c')] else [])
        (if w.counts c (.node l r span ts) then [(.node l r span ts, c)] else []) := by
      rw [hw.counts_eq hc h]
      split
      · exact .of_forall₂ (.cons ⟨h, hc⟩ .nil)
      · exact .of_forall₂ .nil
    rw [visited_eq, visited_eq, hw.visit_eq hc h]
    split
    · exact hself.append (hw.thins_below hc h fun u hu => ih u hu)
    · exact hself
    · exact .of_forall₂ .nil

end Follows

theorem map_fst_visited_plain (visit : Tree → Visit) (counts : Tree → Bool) (t : Tree) :
    ((plain visit counts).visited () t).map Prod.fst = (t.walk visit).filter counts :=
  found_plain visit counts t

end Syntax.Search

/-! ### Walks without a context -/

section Plain

variable {s' s : Source} {exact : Prop} {visit' visit : Tree → Visit} {counts' counts : Tree → Bool}
  {t' t : Tree}

/-- A search without a context does in the normal form what another one does in the source, if it
cannot tell twins apart. -/
theorem Syntax.Search.follows_plain (silent' : ∀ t : Tree, t.isSilent → counts' t = false)
    (silent : ∀ t : Tree, t.isSilent → counts t = false)
    (counts_eq : ∀ t' t, Twin s' s t' t → counts' t' = counts t)
    (visit_eq : ∀ t' t, Twin s' s t' t → visit' t' = visit t)
    (block : exact → ∀ t : Tree, t.is .statementBlock → visit' t = .enter) :
    Search.Follows exact s' s (fun _ _ => True) (.plain visit' counts') (.plain visit counts) where
  silent' _ := silent'
  silent _ := silent
  counts_eq _ := counts_eq _ _
  visit_eq _ := visit_eq _ _
  down _ _ _ _ := trivial
  block _ _ hbody hpart := ⟨fun hexact => block hexact _
    (Tree.is_iff.2 (Tree.uncommented_of_isBlockOfOne (hpart.block hbody)).1), trivial⟩

/-- So does a search for nodes of some kinds. -/
theorem Syntax.Search.follows_isAny {ks : List Kind}
    (hks : ∀ k ∈ ks, k ≠ .comment ∧ k ≠ .statementBlock)
    (visit_eq : ∀ t' t, Twin s' s t' t → visit' t' = visit t)
    (block : exact → ∀ t : Tree, t.is .statementBlock → visit' t = .enter) :
    Search.Follows exact s' s (fun _ _ => True) (.plain visit' (·.isAny ks))
      (.plain visit (·.isAny ks)) :=
  follows_plain (fun _ => Tree.isAny_of_isSilent hks) (fun _ => Tree.isAny_of_isSilent hks)
    (fun _ _ ht => ht.isAny_eq ks) visit_eq block

theorem Syntax.Search.follows_is {k : Kind} (hk : k ≠ .comment ∧ k ≠ .statementBlock)
    (visit_eq : ∀ t' t, Twin s' s t' t → visit' t' = visit t)
    (block : exact → ∀ t : Tree, t.is .statementBlock → visit' t = .enter) :
    Search.Follows exact s' s (fun _ _ => True) (.plain visit' (·.is k)) (.plain visit (·.is k)) :=
  follows_plain (fun _ => Tree.is_of_isSilent hk) (fun _ => Tree.is_of_isSilent hk)
    (fun _ _ ht => ht.is_eq k) visit_eq block

namespace Twin

variable (h : Twin s' s t' t)

include h

/-- The nodes that count on a walk. -/
theorem thins_walk (hw : Search.Follows exact s' s (fun _ _ => True) (.plain visit' counts')
    (.plain visit counts)) : Thins exact (Twin s' s) ((t'.walk visit').filter counts')
      ((t.walk visit).filter counts) := by
  rw [← Search.map_fst_visited_plain, ← Search.map_fst_visited_plain]
  exact (hw.thins trivial h).map fun _ _ hx => hx.1

/-- The nodes that count on a walk which enters the root whatever it is. -/
theorem thins_walkBelow (hw : Search.Follows exact s' s (fun _ _ => True) (.plain visit' counts')
    (.plain visit counts)) : Thins exact (Twin s' s) ((t'.walkBelow visit').filter counts')
      ((t.walkBelow visit).filter counts) := by
  have hbelow : ∀ (visit : Tree → Visit) (counts : Tree → Bool) (t : Tree),
      (t.walkBelow visit).filter counts = (if counts t then [t] else []) ++
        ((Search.plain visit counts).visitedBelow () t).map Prod.fst := by
    intro visit counts t
    have hchildren : ((Search.plain visit counts).visitedBelow () t).map Prod.fst =
        t.children.flatMap fun c => (c.walk visit).filter counts := by
      rw [Search.visitedBelow, List.map_flatMap]
      exact List.flatMap_congr fun c _ => Search.map_fst_visited_plain visit counts c
    rw [Tree.walkBelow, Tree.walkChildren_eq, List.filter_cons, List.filter_flatMap, hchildren]
    split <;> rfl
  have hself : Thins exact (Twin s' s) (if counts' t' then [t'] else [])
      (if counts t then [t] else []) := by
    have hcounts : (Search.plain visit' counts').counts () t' =
        (Search.plain visit counts).counts () t := hw.counts_eq trivial h
    rw [show counts' t' = counts t from hcounts]
    split
    · exact .of_forall₂ (.cons h .nil)
    · exact .of_forall₂ .nil
  have hchildren : Thins exact (fun x' x => Twin s' s x'.1 x.1 ∧ True)
      ((Search.plain visit' counts').visitedBelow () t')
      ((Search.plain visit counts).visitedBelow () t) :=
    hw.thins_below trivial h fun _ _ _ _ _ hc htwin => hw.thins hc htwin
  rw [hbelow, hbelow]
  exact hself.append (hchildren.map fun _ _ hx => hx.1)

/-- On a walk that goes through blocks, the nodes are the same. -/
theorem forall₂_walk (hw : Search.Follows True s' s (fun _ _ => True) (.plain visit' counts')
    (.plain visit counts)) : List.Forall₂ (Twin s' s) ((t'.walk visit').filter counts')
      ((t.walk visit).filter counts) := (h.thins_walk hw).forall₂ trivial

theorem forall₂_walkBelow (hw : Search.Follows True s' s (fun _ _ => True) (.plain visit' counts')
    (.plain visit counts)) : List.Forall₂ (Twin s' s) ((t'.walkBelow visit').filter counts')
      ((t.walkBelow visit).filter counts) := (h.thins_walkBelow hw).forall₂ trivial

/-- The nodes of some kinds. -/
theorem forall₂_nodes {ks : List Kind} (hks : ∀ k ∈ ks, k ≠ .comment ∧ k ≠ .statementBlock) :
    List.Forall₂ (Twin s' s) (t'.nodes.filter (·.isAny ks)) (t.nodes.filter (·.isAny ks)) := by
  rw [← Tree.walk_enter, ← Tree.walk_enter]
  exact h.forall₂_walk (Search.follows_isAny hks (fun _ _ _ => rfl) fun _ _ _ => rfl)

end Twin

end Plain

end FlowAnalysis
