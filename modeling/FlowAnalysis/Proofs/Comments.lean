import FlowAnalysis.Proofs.Braces
import Mathlib.Data.List.Forall2

/-!
# Comments in front of promoted bodies

Comments between a header and its body stay where they are, and the opening brace belongs in front
of all of them, directly behind the last token of the header.  That is where it is written if the
comments have the forms of slashes; markup comments are taken for tokens, and behind one of them the
brace is part of the comment.

## Main definitions

* `Tree.isAside` — comments of every form.
* `Tree.Follows` — a body behind the last token in front of it and the comments between the two.
* `Promotion.Leads` — an opening brace in front of all comments.

## Main results

* `Tree.exists_follows` — in front of every body there is a last token.
* `Tree.eq_or_mem_of_lastBefore?` — the header is that token or a markup comment behind it.
* `Promotion.leads_iff` — when the opening brace leads.
* `Source.openings_of_parse` — **the opening braces of a text lead unless there are markup
  comments.**
-/

namespace FlowAnalysis

open Syntax Text

namespace Syntax.Tree

/-- Whether a node is a comment of any form. -/
def isAside (t : Tree) : Bool := t.isAny [.comment, .htmlComment]

theorem isAside_iff {t : Tree} : t.isAside ↔ t.is .comment ∨ t.is .htmlComment := by
  simp [isAside, isAny]

/-- A body stands among the children of a node behind a last node that is no comment, with nothing
but comments between the two. -/
structure Follows (owner last : Tree) (comments : List Tree) (body : Tree) : Prop where
  last_isAside : last.isAside = false
  isAside : ∀ c ∈ comments, c.isAside
  siblings : ∃ pre post, owner.children = (pre ++ last :: comments) ++ body :: post

variable {owner last header body : Tree} {comments : List Tree}

/-- In front of the body of a node there is a last node that is no comment. -/
theorem exists_follows (ht : owner.Laid) (hbody : owner.body? = some body) :
    ∃ last comments, owner.Follows last comments body := by
  obtain ⟨last, pre, mid, post, hsplit, hlast, hmid, -⟩ :=
    exists_last_before (q := Tree.isAside) ht hbody
      fun w hw => by simp [Tree.isAside, isAny, is_of_isTerminal hw]
  exact ⟨last, mid, hlast, hmid, pre, post, hsplit⟩

/-- The comments begin behind the last node that is none. -/
theorem Follows.stop_le (h : owner.Follows last comments body) (ht : owner.Laid) :
    ∀ c ∈ comments, last.stop ≤ c.start ∧ c.start < c.stop := by
  obtain ⟨pre, post, hsplit⟩ := h.siblings
  have hlaid := ht.children
  rw [hsplit, List.append_assoc] at hlaid
  obtain ⟨_, -, hlaid⟩ := laidFrom_append.1 hlaid
  rw [List.cons_append, laidFrom_cons] at hlaid
  intro c hc
  obtain ⟨hself, hle, -⟩ := hlaid.2.2.laid_of_mem (List.mem_append_left _ hc)
  exact ⟨hle, hself.lt⟩

/-- The header of a body is the last of its siblings before it that is no comment with slashes. -/
theorem Heads.lastBefore?_eq (h : owner.Heads header body) (ht : owner.Laid) :
    lastBefore? owner.children body.start = some header := by
  obtain ⟨pre, mid, post, hsplit, hmid⟩ := h.siblings
  have hlaid := ht.children
  have hassoc : owner.children = (pre ++ header :: mid) ++ body :: post := by simp [hsplit]
  rw [hassoc] at hlaid ⊢
  have hnone : mid.filter (!·.is .comment) = [] := by simpa using hmid
  rw [Tree.lastBefore?_eq hlaid, List.filter_append,
    List.filter_cons_of_pos (by simp [h.notComment]), hnone, List.getLast?_concat]

/-- The header of a body is the last node that is no comment, if all comments have slashes, or else
a markup comment. -/
theorem Follows.eq_or_mem (h : owner.Follows last comments body) (ht : owner.Laid)
    (hheader : lastBefore? owner.children body.start = some header) :
    (∀ c ∈ comments, c.is .comment) ∧ header = last ∨
      header ∈ comments ∧ header.is .htmlComment := by
  obtain ⟨pre, post, hsplit⟩ := h.siblings
  have hlaid := ht.children
  have hlast : last.is .comment = false := by
    have hnone := h.last_isAside
    simp only [Tree.isAside, isAny, List.any_cons, Bool.or_eq_false_iff] at hnone
    exact hnone.1
  rw [hsplit] at hlaid hheader
  rw [Tree.lastBefore?_eq hlaid, List.filter_append, List.filter_cons_of_pos (by simp [hlast]),
    List.getLast?_append_of_ne_nil _ (List.cons_ne_nil _ _)] at hheader
  cases hmarkup : comments.filter (!·.is .comment) with
  | nil =>
    rw [hmarkup, List.getLast?_singleton] at hheader
    exact .inl ⟨by simpa using hmarkup, (Option.some.inj hheader).symm⟩
  | cons c cs =>
    rw [List.getLast?_cons_of_ne_nil (hmarkup ▸ List.cons_ne_nil c cs)] at hheader
    obtain ⟨hmem, hother⟩ := List.mem_filter.1 (List.mem_of_getLast? hheader)
    refine .inr ⟨hmem, (isAside_iff.1 (h.isAside header hmem)).resolve_left ?_⟩
    simpa using hother

end Syntax.Tree

namespace Promotion

variable {p : Promotion} {owner last header body : Tree} {comments : List Tree}

/-- The opening brace stands directly behind the last token in front of the body, in front of all
comments between the two. -/
def Leads (p : Promotion) (last : Tree) (comments : List Tree) : Prop :=
  p.header = last.stop ∧ ∀ c ∈ comments, p.header ≤ c.start

/-- **The opening brace leads if and only if all comments have slashes**; else it stands behind a
markup comment. -/
theorem leads_iff (h : owner.Follows last comments body) (ht : owner.Laid)
    (hheads : owner.Heads header body) (hp : p.header = header.stop) :
    (p.Leads last comments ↔ ∀ c ∈ comments, c.is .comment) ∧
      (¬p.Leads last comments → ∃ c ∈ comments, c.is .htmlComment ∧ p.header = c.stop) := by
  have hbehind := h.stop_le ht
  rcases h.eq_or_mem ht (hheads.lastBefore?_eq ht) with ⟨hslashes, rfl⟩ | ⟨hmem, hmarkup⟩
  · have hleads : p.Leads header comments := ⟨hp, fun c hc => hp ▸ (hbehind c hc).1⟩
    exact ⟨iff_of_true hleads hslashes, fun hnot => absurd hleads hnot⟩
  · have hnot : ¬p.Leads last comments := by
      rintro ⟨hstop, -⟩
      have := hbehind header hmem
      omega
    have hother : ¬∀ c ∈ comments, c.is .comment := by
      intro hall
      have hslash := hall header hmem
      rw [Tree.is_iff] at hslash hmarkup
      rw [hslash] at hmarkup
      cases hmarkup
    exact ⟨iff_of_false hnot hother, fun _ => ⟨header, hmem, hmarkup, hp⟩⟩

end Promotion

namespace Syntax.Source

/-- The edits that bring a source into normal form open a block for each promotion, at its header
and with a brace. -/
theorem opening_mem_normalEdits {s : Source} {p : Promotion} (hp : p ∈ s.promotions) :
    p.opening ∈ s.normalEdits ∧ p.opening.span.start = p.header ∧
      [' ', '\x7b'] <+: p.opening.replacement := by
  refine ⟨?_, Pieces.span_opening p, ?_⟩
  · rw [normalEdits_eq_mergeSort, List.mem_map]
    refine ⟨(p.opening, p.depth), (List.mergeSort_perm _ later).mem_iff.2 ?_, rfl⟩
    exact List.mem_flatMap.2 ⟨p, hp, List.mem_cons_self⟩
  · unfold Promotion.opening
    split
    · exact ⟨['\n'] ++ Promotion.deeper p.indent, rfl⟩
    · exact List.prefix_rfl

/-- **The opening braces of a text.**  The bodies that are single statements and the promotions
correspond, and the edits of the normal form open each block with a brace.  Where all comments in
front of the body have slashes the brace stands directly behind the last token, in front of all of
them; elsewhere it stands directly behind a markup comment. -/
theorem openings_of_parse {text : String} {s : Source} (h : Source.parse text = .ok s) :
    (normalize text).toList = Edit.substitute text.toList 0 s.normalEdits.reverse ∧
    List.Forall₂ (fun owner p =>
      (p.opening ∈ s.normalEdits ∧ p.opening.span.start = p.header ∧
        [' ', '\x7b'] <+: p.opening.replacement) ∧
      ∃ body last comments, owner.bareBody? = some body ∧ p.body = body.span ∧
        owner.Follows last comments body ∧
        (p.Leads last comments ↔ ∀ c ∈ comments, c.is .comment) ∧
        (¬p.Leads last comments → ∃ c ∈ comments, c.is .htmlComment ∧ p.header = c.stop))
      (s.root.nodes.filter (·.bareBody?.isSome)) s.promotions := by
  have hroot := (rooted_of_parse h).2.2
  have hpairs := forall₂_promotions hroot
  refine ⟨toList_normalize h, ?_⟩
  rw [List.forall₂_iff_get] at hpairs ⊢
  refine ⟨hpairs.1, fun i hi hi' => ?_⟩
  obtain ⟨header, body, hbody, hheads, hheader, hspan, -⟩ := (hpairs.2 i hi hi').body
  have hlaid := laid_of_mem_root hroot (List.mem_of_mem_filter (List.get_mem _ ⟨i, hi⟩)) hbody
  obtain ⟨last, comments, hfollows⟩ :=
    Tree.exists_follows hlaid (Tree.body?_of_bareBody? hbody)
  exact ⟨opening_mem_normalEdits (List.get_mem _ ⟨i, hi'⟩), body, last, comments, hbody, hspan,
    hfollows, Promotion.leads_iff hfollows hlaid hheads hheader⟩

/-- A branch with a markup comment in front of its body. -/
def remarkText : String := "if(a)<!--\nb()"

/-- The promotion of its body. -/
def remarkPromotion : Promotion := ⟨9, ⟨10, 13⟩, [], 2, true⟩

/-- The opening brace becomes part of the markup comment. -/
theorem openings_of_parse_remarkText : ∃ s owner, Source.parse remarkText = .ok s ∧
    normalize remarkText = "if(a)<!-- \x7b\n  b()\n\x7d" ∧
    s.root.nodes.filter (·.bareBody?.isSome) = [owner] ∧ s.promotions = [remarkPromotion] ∧
    ∃ body last comments, owner.bareBody? = some body ∧ owner.Follows last comments body ∧
      ¬remarkPromotion.Leads last comments ∧
      ∃ c ∈ comments, c.is .htmlComment ∧ remarkPromotion.header = c.stop := by
  have hread : (Source.parse remarkText).toOption.any fun s =>
      decide (s.promotions = [remarkPromotion]) &&
        decide ((s.root.nodes.filter (·.bareBody?.isSome)).length = 1) &&
          (s.root.nodes.filter (·.bareBody?.isSome)).all fun owner =>
            owner.children.all fun c => c.isAside || decide (c.stop ≠ 9) := by decide +kernel
  obtain ⟨s, hs, hread⟩ := exists_ok_of_any hread
  simp only [Bool.and_eq_true, decide_eq_true_eq] at hread
  obtain ⟨⟨hpromotions, hlength⟩, hread⟩ := hread
  obtain ⟨owner, howners⟩ := List.length_eq_one_iff.1 hlength
  rw [howners, List.all_cons, List.all_nil, Bool.and_true] at hread
  have hnormal : normalize remarkText = "if(a)<!-- \x7b\n  b()\n\x7d" := by
    rw [normalize_of_ok hs, normalized, normalEdits_of_singleton hpromotions (by decide),
      (rooted_of_parse hs).1]
    decide
  obtain ⟨-, hopenings⟩ := openings_of_parse hs
  rw [howners, hpromotions, List.forall₂_cons] at hopenings
  obtain ⟨⟨-, body, last, comments, hbody, -, hfollows, -, hmarkup⟩, -⟩ := hopenings
  have hnot : ¬remarkPromotion.Leads last comments := by
    rintro ⟨hstop, -⟩
    obtain ⟨pre, post, hsplit⟩ := hfollows.siblings
    have hlast := List.all_eq_true.1 hread last (by simp [hsplit])
    simp [hfollows.last_isAside, ← hstop, remarkPromotion] at hlast
  exact ⟨s, owner, hs, hnormal, howners, hpromotions, body, last, comments, hbody, hfollows,
    hnot, hmarkup hnot⟩

end Syntax.Source

end FlowAnalysis
