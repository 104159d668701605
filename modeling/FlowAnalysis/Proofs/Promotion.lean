import FlowAnalysis.Normalize
import FlowAnalysis.Proofs.Syntax.Nodes
import FlowAnalysis.Proofs.Syntax.Sources
import Mathlib.Data.List.Induction
import Mathlib.Data.List.TakeWhile

/-!
# Promoted bodies

In a tree that is laid out, every body that is a single statement has a header in front of it: the
last of its siblings before it that is not a comment.  So every such body is promoted, each by a
promotion of its own.

## Main definitions

* `Tree.Heads` — the header in front of a body.
* `Source.Promotes` — a promotion of the body of a node.

## Main results

* `exists_heads` — a body that is a single statement has a header.
* `forall₂_promotions` — **the bodies that are single statements and the promotions correspond.**
-/

namespace FlowAnalysis

open Syntax

namespace Syntax.Tree

/-- A body stands among the children of a node behind a header, with nothing but comments between
them. -/
structure Heads (owner header body : Tree) : Prop where
  notComment : header.is .comment = false
  siblings : ∃ pre mid post, owner.children = pre ++ header :: (mid ++ body :: post) ∧
    ∀ t ∈ mid, t.is .comment

/-- A body is found by its role or by its name, in a branch or in a loop. -/
theorem body?_cases {t b : Tree} (h : t.body? = some b) :
    t.isOwner ∧ ((∃ r, t.field? r = some b) ∨ t.named.getLast? = some b) := by
  unfold body? at h
  split at h
  case h_2 hl => exact ⟨by simp [isOwner, hl], .inr (Option.filter_eq_some_iff.1 h).1⟩
  case h_7 => simp at h
  all_goals
    next hl => exact ⟨by simp [isOwner, hl], .inl ⟨_, h⟩⟩

theorem body?_mem {t b : Tree} (h : t.body? = some b) : b ∈ t.children := by
  obtain ⟨_, ⟨r, hr⟩ | hn⟩ := body?_cases h
  · exact (field?_eq_some hr).1
  · exact List.mem_of_mem_filter (List.mem_of_getLast? hn)

/-- The body is not the keyword with which its owner begins. -/
theorem body?_ne {t b w : Tree} (h : t.body? = some b) (hw : w.isTerminal) (hr : w.role = none) :
    b ≠ w := by
  rintro rfl
  obtain ⟨_, ⟨r, hr'⟩ | hn⟩ := body?_cases h
  · rw [(field?_eq_some hr').2] at hr
    simp at hr
  · have hb := (List.mem_filter.1 (List.mem_of_getLast? hn)).2
    obtain ⟨l, _, _, _⟩ := b
    cases l <;> simp_all [isTerminal, isNamed]

theorem body?_of_bareBody? {t b : Tree} (h : t.bareBody? = some b) : t.body? = some b :=
  (Option.filter_eq_some_iff.1 h).1

/-- The siblings before a body are those that begin before it. -/
theorem lastBefore?_eq {lo hi : Nat} {pre post : List Tree} {b : Tree}
    (h : LaidFrom lo (pre ++ b :: post) hi) :
    lastBefore? (pre ++ b :: post) b.start = (pre.filter (!·.is .comment)).getLast? := by
  obtain ⟨mid, hpre, hpost⟩ := laidFrom_append.1 h
  rw [laidFrom_cons] at hpost
  have hbefore : pre.filter (fun t => decide (t.start < b.start) && !t.is .comment) =
      pre.filter (!·.is .comment) := by
    apply List.filter_congr
    intro t ht
    have := (hpre.laid_of_mem ht).2.2
    have := (hpre.laid_of_mem ht).1.lt
    have : t.start < b.start := by omega
    simp [this]
  have hbehind : (b :: post).filter (fun t => decide (t.start < b.start) && !t.is .comment) = [] := by
    rw [List.filter_eq_nil_iff]
    intro t ht
    have : b.start ≤ t.start := by
      rcases List.mem_cons.1 ht with rfl | ht
      · exact Nat.le_refl _
      · have := (hpost.2.2.laid_of_mem ht).2.1
        have := hpost.2.1.lt
        omega
    simp [Nat.not_lt.2 this]
  rw [lastBefore?, List.filter_append, hbefore, hbehind, List.append_nil]

/-- The last of some trees that a test lets through, and those behind it that it does not. -/
theorem getLast?_filter_eq_some {q : Tree → Bool} {ts : List Tree} {t : Tree}
    (h : (ts.filter (!q ·)).getLast? = some t) :
    q t = false ∧ ∃ pre mid, ts = pre ++ t :: mid ∧ ∀ u ∈ mid, q u := by
  induction ts using List.reverseRecOn with
  | nil => simp at h
  | append_singleton ts u ih =>
    rw [List.filter_append] at h
    by_cases hu : q u
    · rw [List.filter_cons_of_neg (by simp [hu]), List.filter_nil, List.append_nil] at h
      obtain ⟨ht, pre, mid, rfl, hmid⟩ := ih h
      refine ⟨ht, pre, mid ++ [u], by simp, ?_⟩
      intro v hv
      rcases List.mem_append.1 hv with hv | hv
      · exact hmid v hv
      · rw [List.mem_singleton.1 hv]
        exact hu
    · rw [List.filter_cons_of_pos (by simp [hu]), List.filter_nil, List.getLast?_concat] at h
      obtain rfl := Option.some.inj h
      exact ⟨by simpa using hu, ts, [], rfl, List.forall_mem_nil _⟩

/-- The keyword of a branch or of a loop stands in front of the body. -/
theorem exists_keyword {t b : Tree} (ht : t.Laid) (hbody : t.body? = some b) :
    ∃ w pre post, t.children = (w :: pre) ++ b :: post ∧ w.isTerminal := by
  obtain ⟨w, rest, hw, hterm, hrole⟩ : ∃ w rest, t.children = w :: rest ∧ w.isTerminal ∧
      w.role = none := by
    have hown := (body?_cases hbody).1
    obtain ⟨l, _, _, _⟩ := t
    cases l with
    | rule k => exact (formed_owner hown).1 ht.formed
    | _ => simp [isOwner] at hown
  obtain ⟨pre, post, hsplit⟩ := List.append_of_mem (body?_mem hbody)
  rw [hw] at hsplit
  cases pre with
  | nil => exact absurd (List.cons.inj hsplit).1.symm (body?_ne hbody hterm hrole)
  | cons u us =>
    obtain rfl := (List.cons.inj hsplit).1
    exact ⟨w, us, post, hw.trans hsplit, hterm⟩

/-- A keyword is a node of no kind. -/
theorem is_of_isTerminal {w : Tree} (h : w.isTerminal) (k : Kind) : w.is k = false := by
  obtain ⟨l, _, _, _⟩ := w
  cases l <;> simp_all [isTerminal, is]

/-- Of the siblings before a body there is a last one that a test lets through, if the test lets the
keyword through. -/
theorem exists_last_before {q : Tree → Bool} {t b : Tree} (ht : t.Laid) (hbody : t.body? = some b)
    (hq : ∀ w : Tree, w.isTerminal → q w = false) :
    ∃ last pre mid post, t.children = (pre ++ last :: mid) ++ b :: post ∧ q last = false ∧
      (∀ u ∈ mid, q u) ∧ ((pre ++ last :: mid).filter (!q ·)).getLast? = some last := by
  obtain ⟨w, before, post, hsplit, hterm⟩ := exists_keyword ht hbody
  obtain ⟨last, hlast⟩ : ∃ last, ((w :: before).filter (!q ·)).getLast? = some last := by
    rw [List.filter_cons_of_pos (by simp [hq w hterm])]
    exact ⟨_, List.getLast?_eq_some_getLast (List.cons_ne_nil _ _)⟩
  obtain ⟨hself, pre, mid, heq, hmid⟩ := getLast?_filter_eq_some hlast
  exact ⟨last, pre, mid, post, heq ▸ hsplit, hself, hmid, heq ▸ hlast⟩

/-- A body that is a single statement has a header. -/
theorem exists_heads {t b : Tree} (ht : t.Laid) (hb : t.bareBody? = some b) :
    ∃ header, lastBefore? t.children b.start = some header ∧ t.Heads header b := by
  have hlaid := ht.children
  obtain ⟨header, pre, mid, post, hsplit, hself, hmid, hlast⟩ :=
    exists_last_before (q := (·.is .comment)) ht (body?_of_bareBody? hb)
      fun w hw => is_of_isTerminal hw .comment
  refine ⟨header, ?_, hself, pre, mid, post, by simp [hsplit], hmid⟩
  rw [hsplit] at hlaid ⊢
  rw [lastBefore?_eq hlaid, hlast]

end Syntax.Tree

/-! ### Nodes and walks -/

namespace Syntax.Tree

variable {σ : Type}

mutual

/-- What the context keeps from a node to its children holds wherever a walk comes. -/
theorem walkWith_context {P : σ → Prop} {down : Tree → σ → Tree → σ}
    (hdown : ∀ parent s child, P s → P (down parent s child)) {s : σ} (hs : P s) (t : Tree) :
    ∀ v ∈ t.walkWith down (fun _ _ => .enter) s, P v.2 := by
  match t with
  | .node l r span ts =>
    intro v hv
    rw [walkWith, List.mem_cons] at hv
    rcases hv with rfl | hv
    · exact hs
    · exact walkChildrenWith_context hdown hs _ ts v hv

theorem walkChildrenWith_context {P : σ → Prop} {down : Tree → σ → Tree → σ}
    (hdown : ∀ parent s child, P s → P (down parent s child)) {s : σ} (hs : P s) (parent : Tree)
    (ts : List Tree) : ∀ v ∈ walkChildrenWith down (fun _ _ => .enter) parent s ts, P v.2 := by
  match ts with
  | [] => nofun
  | t :: ts =>
    intro v hv
    rw [walkChildrenWith, List.mem_append] at hv
    rcases hv with hv | hv
    · exact walkWith_context hdown (hdown parent s t hs) t v hv
    · exact walkChildrenWith_context hdown hs parent ts v hv

end

end Syntax.Tree

/-! ### Promotions -/

namespace Syntax.Source

/-- A promotion of the body of a node: its braces depend on the header in front of the body and on
what stands between the two. -/
structure Promotes (s : Source) (owner : Tree) (p : Promotion) : Prop where
  body : ∃ header body, owner.bareBody? = some body ∧ owner.Heads header body ∧
    p.header = header.stop ∧ p.body = body.span ∧
    (p.adjacent ↔ ∀ c ∈ sliceOf s.text ⟨header.stop, body.start⟩, Text.isBlank c)
  indent : ∀ c ∈ p.indent, c = ' ' ∨ c = '\t'

theorem isEmpty_trim_iff {cs : List Char} :
    (Text.trim cs).isEmpty ↔ ∀ c ∈ cs, Text.isBlank c := by
  have hdrop : ∀ ds : List Char, Text.trimLeft ds = [] ↔ ∀ c ∈ ds, Text.isBlank c :=
    fun _ => List.dropWhile_eq_nil_iff
  rw [List.isEmpty_iff, Text.trim, List.reverse_eq_nil_iff, hdrop]
  constructor
  · intro h c hc
    by_contra hblank
    -- The first character that is not blank would be left.
    have hne : Text.trimLeft cs ≠ [] := fun he => hblank ((hdrop cs).1 he c hc)
    have hhead : ¬ Text.isBlank ((Text.trimLeft cs).head hne) := by
      simpa [Text.trimLeft] using List.head_dropWhile_not Text.isBlank hne
    exact hhead (h _ (List.mem_reverse.2 (List.head_mem hne)))
  · intro h c hc
    exact h c ((List.dropWhile_sublist _).subset (List.mem_reverse.1 hc))

theorem blankBetween_iff {s : Source} {start stop : Nat} :
    s.blankBetween start stop ↔ ∀ c ∈ sliceOf s.text ⟨start, stop⟩, Text.isBlank c :=
  isEmpty_trim_iff

/-- Indentations are made up of blanks and tabs. -/
def Place.Blank (p : Place) : Prop := ∀ c ∈ p.indent, c = ' ' ∨ c = '\t'

theorem blank_lineIndent (s : Source) (offset : Nat) :
    ∀ c ∈ s.lineIndent offset, c = ' ' ∨ c = '\t' := by
  intro c hc
  simpa using List.mem_takeWhile_imp hc

theorem blank_deeper {indent : List Char} (h : ∀ c ∈ indent, c = ' ' ∨ c = '\t') :
    ∀ c ∈ Promotion.deeper indent, c = ' ' ∨ c = '\t' := by
  intro c hc
  rw [Promotion.deeper, List.mem_append] at hc
  rcases hc with hc | hc
  · exact h c hc
  · split at hc <;> simp_all

theorem promotion?_eq_some {s : Source} {owner : Tree} {p : Place} {q : Promotion}
    (h : s.promotion? owner p = some q) : ∃ body header, owner.bareBody? = some body ∧
      Tree.lastBefore? owner.children body.start = some header ∧
      q = ⟨header.stop, body.span, p.indent, p.depth + 1,
        s.blankBetween header.stop body.start⟩ := by
  simp only [promotion?, Option.bind_eq_bind, Option.bind_eq_some_iff] at h
  obtain ⟨body, hbody, header, hheader, h⟩ := h
  exact ⟨body, header, hbody, hheader, (Option.some.inj h).symm⟩

theorem blank_placeOf {s : Source} {parent child : Tree} {p : Place} (hp : p.Blank) :
    (s.placeOf parent p child).Blank := by
  intro c hc
  simp only [placeOf] at hc
  split at hc
  · next q hq =>
    obtain ⟨body, header, _, _, rfl⟩ := promotion?_eq_some hq
    split at hc
    · exact blank_deeper hp c hc
    · simp only [Option.getD_none] at hc
      split at hc
      · exact blank_lineIndent s _ c hc
      · exact hp c hc
  · simp only [Option.getD_none] at hc
    split at hc
    · exact blank_lineIndent s _ c hc
    · exact hp c hc

/-- The promotion of a body, which a node that is laid out has if it has the body. -/
theorem promotes_promotion? {s : Source} {owner body : Tree} {p : Place} (ht : owner.Laid)
    (hp : p.Blank) (hb : owner.bareBody? = some body) :
    ∃ q, s.promotion? owner p = some q ∧ s.Promotes owner q := by
  obtain ⟨header, hlast, hheads⟩ := Tree.exists_heads ht hb
  refine ⟨⟨header.stop, body.span, p.indent, p.depth + 1, s.blankBetween header.stop body.start⟩,
    ?_, ⟨header, body, hb, hheads, rfl, rfl, blankBetween_iff⟩, hp⟩
  simp [promotion?, hb, hlast]

theorem promotion?_eq_none {s : Source} {owner : Tree} {p : Place} (h : owner.bareBody? = none) :
    s.promotion? owner p = none := by
  simp [promotion?, h]

theorem laid_of_mem_root {s : Source} (h : Rooted s.text s.root) {t b : Tree}
    (ht : t ∈ s.root.nodes) (hb : t.bareBody? = some b) : t.Laid := by
  rcases Tree.eq_or_laid_of_mem_nodes h.laid ht with rfl | ht
  · have hown := (Tree.body?_cases (Tree.body?_of_bareBody? hb)).1
    simp [Tree.isOwner, h.label] at hown
  · exact ht.1

/-- **The bodies that are single statements and the promotions correspond**, in reading order. -/
theorem forall₂_promotions {s : Source} (h : Rooted s.text s.root) :
    List.Forall₂ s.Promotes (s.root.nodes.filter (·.bareBody?.isSome)) s.promotions := by
  have hsane : ∀ v ∈ s.root.walkWith s.placeOf (fun _ _ => .enter) ⟨s.lineIndent s.root.start, 0⟩,
      (∀ b, v.1.bareBody? = some b → v.1.Laid) ∧ v.2.Blank := by
    intro v hv
    refine ⟨fun b hb => ?_, ?_⟩
    · have hmem : v.1 ∈ s.root.nodes := by
        rw [← Tree.walkWith_fst s.placeOf ⟨s.lineIndent s.root.start, 0⟩]
        exact List.mem_map_of_mem hv
      exact laid_of_mem_root h hmem hb
    · exact Tree.walkWith_context (fun parent p child hp => blank_placeOf hp)
        (s := ⟨s.lineIndent s.root.start, 0⟩) (blank_lineIndent s s.root.start) s.root v hv
  rw [promotions, ← Tree.walkWith_fst s.placeOf ⟨s.lineIndent s.root.start, 0⟩]
  generalize s.root.walkWith s.placeOf (fun _ _ => .enter) ⟨s.lineIndent s.root.start, 0⟩ = vs at *
  induction vs with
  | nil => exact .nil
  | cons v vs ih =>
    obtain ⟨t, p⟩ := v
    obtain ⟨hlaid, hblank⟩ := hsane (t, p) List.mem_cons_self
    have hrest := ih fun w hw => hsane w (List.mem_cons_of_mem (t, p) hw)
    rw [List.map_cons, List.filterMap_cons]
    cases hb : t.bareBody? with
    | none =>
      rw [List.filter_cons_of_neg (by simp [hb])]
      simp only [promotion?_eq_none hb]
      exact hrest
    | some b =>
      obtain ⟨q, hq, hpromotes⟩ := promotes_promotion? (s := s) (hlaid b hb) hblank hb
      rw [List.filter_cons_of_pos (by simp [hb])]
      simp only [hq]
      exact .cons hpromotes hrest

end Syntax.Source

end FlowAnalysis
