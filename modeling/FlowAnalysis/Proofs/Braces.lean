import FlowAnalysis.Proofs.Promotion
import FlowAnalysis.Proofs.Text.Edit
import Mathlib.Data.List.Pairwise
import Mathlib.Data.List.Flatten
import Mathlib.Data.List.Sort

/-!
# The normal form is the text with braces around the promoted bodies

A source falls into stretches that stay as they are and blocks around promoted bodies, and the
blocks nest as the bodies do.  The edits that bring the source into normal form put the braces of
every block in their places, whatever the offsets at which braces meet.

## Main definitions

* `Pieces` — a text that falls into stretches and blocks.
* `Pieces.Covers` — pieces that cover a range of the text without a gap.
* `Pieces.written` — the text with the braces of all blocks.
* `Pieces.Fits` — pieces for some promotions, whose edits stand in order.

## Main results

* `exists_pieces` — every tree that is laid out falls into pieces.
* `normalEdits_eq` — the edits of the normal form are those of the pieces.
* `toList_normalize` — the normal form is the text with all edits at once.
* `normalize_eq_written` — **normal form puts braces around the promoted bodies, all at once.**
-/

namespace FlowAnalysis

open Syntax Text

/-! ### Pieces -/

/-- A text that falls into stretches that are kept and blocks around promoted bodies. -/
inductive Pieces
  /-- Nothing is left. -/
  | nil
  /-- A stretch that stays as it is, and what follows it. -/
  | kept (span : Span) (rest : Pieces)
  /-- A block from the header of a body to the end of the body, and what follows it. -/
  | block (p : Promotion) (inside rest : Pieces)

namespace Pieces

/-- Some pieces and more of them. -/
def append : Pieces → Pieces → Pieces
  | nil, qs => qs
  | kept span rest, qs => kept span (rest.append qs)
  | block p inside rest, qs => block p inside (rest.append qs)

/-- The pieces cover a range without a gap, and each block covers its body. -/
def Covers : Nat → Nat → Pieces → Prop
  | lo, hi, nil => lo = hi
  | lo, hi, kept span rest => span.start = lo ∧ lo ≤ span.stop ∧ rest.Covers span.stop hi
  | lo, hi, block p inside rest =>
    p.header = lo ∧ lo ≤ p.body.start ∧ inside.Covers p.body.start p.body.stop ∧
      rest.Covers p.body.stop hi

/-- The promotions of all blocks. -/
def promotions : Pieces → List Promotion
  | nil => []
  | kept _ rest => rest.promotions
  | block p inside rest => p :: (inside.promotions ++ rest.promotions)

/-- What follows the opening brace of a block: a new line, or the text in front of the body. -/
def lead (text : Chars) (p : Promotion) : List Char :=
  if p.adjacent then '\n' :: Promotion.deeper p.indent
  else sliceOf text ⟨p.header, p.body.start⟩

/-- The text with the braces of all blocks. -/
def written (text : Chars) : Pieces → List Char
  | nil => []
  | kept span rest => sliceOf text span ++ rest.written text
  | block p inside rest =>
    [' ', '\x7b'] ++ lead text p ++ inside.written text ++
      (['\n'] ++ p.indent ++ ['\x7d']) ++ rest.written text

/-- The edits of all blocks in reading order, each with the depth of its block. -/
def edits : Pieces → List (Edit × Nat)
  | nil => []
  | kept _ rest => rest.edits
  | block p inside rest =>
    (p.opening, p.depth) :: (inside.edits ++ (p.closing, p.depth) :: rest.edits)

@[simp] theorem promotions_append (ps qs : Pieces) :
    (ps.append qs).promotions = ps.promotions ++ qs.promotions := by
  induction ps with
  | nil => rfl
  | kept span rest ih => exact ih
  | block p inside rest _ ih => simp [append, promotions, ih]

@[simp] theorem edits_append (ps qs : Pieces) : (ps.append qs).edits = ps.edits ++ qs.edits := by
  induction ps with
  | nil => rfl
  | kept span rest ih => exact ih
  | block p inside rest _ ih => simp [append, edits, ih]

theorem Covers.append {lo mid hi : Nat} {ps qs : Pieces} (hp : ps.Covers lo mid)
    (hq : qs.Covers mid hi) : (ps.append qs).Covers lo hi := by
  induction ps generalizing lo with
  | nil =>
    obtain rfl : lo = mid := hp
    exact hq
  | kept span rest ih => exact ⟨hp.1, hp.2.1, ih hp.2.2⟩
  | block p inside rest _ ih => exact ⟨hp.1, hp.2.1, hp.2.2.1, ih hp.2.2.2⟩

theorem Covers.le {lo hi : Nat} {ps : Pieces} (h : ps.Covers lo hi) : lo ≤ hi := by
  induction ps generalizing lo hi with
  | nil => exact Nat.le_of_eq h
  | kept span rest ih => exact Nat.le_trans h.2.1 (ih h.2.2)
  | block p inside rest ihi ihr =>
    exact Nat.le_trans h.2.1 (Nat.le_trans (ihi h.2.2.1) (ihr h.2.2.2))

/-- The edits of some pieces are those of their promotions. -/
theorem edits_perm (ps : Pieces) :
    ps.edits.Perm (ps.promotions.flatMap fun p => [(p.opening, p.depth), (p.closing, p.depth)]) := by
  induction ps with
  | nil => exact .nil
  | kept span rest ih => exact ih
  | block p inside rest ihi ihr =>
    rw [edits, promotions, List.flatMap_cons, List.flatMap_append]
    refine List.Perm.cons _ ?_
    exact List.perm_middle.trans ((ihi.append ihr).cons _)

/-! ### Pieces are written by substitution -/

theorem span_opening (p : Promotion) : p.opening.span.start = p.header := by
  unfold Promotion.opening
  split <;> rfl

theorem span_closing (p : Promotion) : p.closing.span = ⟨p.body.stop, p.body.stop⟩ := rfl

theorem stop_opening (p : Promotion) :
    p.opening.span.stop = if p.adjacent then p.body.start else p.header := by
  unfold Promotion.opening
  split <;> rfl

/-- The edits of some pieces follow one another, and so do those behind them. -/
theorem ordered_edits {ps : Pieces} {lo hi stop : Nat} {es : List Edit} (hp : ps.Covers lo hi)
    (h : Edit.Ordered stop hi es) : Edit.Ordered stop lo (ps.edits.map (·.1) ++ es) := by
  induction ps generalizing lo hi es with
  | nil =>
    obtain rfl : lo = hi := hp
    exact h
  | kept span rest ih =>
    obtain ⟨_, hle, hrest⟩ := hp
    exact (ih hrest h).mono hle
  | block p inside rest ihi ihr =>
    obtain ⟨hheader, hbody, hinside, hrest⟩ := hp
    have hclosed : Edit.Ordered stop p.body.stop (p.closing :: (rest.edits.map (·.1) ++ es)) :=
      ⟨Nat.le_refl _, Nat.le_refl _, ihr hrest h⟩
    have hopened := ihi hinside hclosed
    simp only [edits, List.map_cons, List.map_append, List.cons_append, List.append_assoc]
    refine ⟨?_, ?_, ?_⟩
    · rw [span_opening, hheader]
    · rw [span_opening, stop_opening]
      split <;> omega
    · rw [stop_opening]
      split
      · exact hopened
      · exact hopened.mono (by omega)

theorem drop_take_self (text : List Char) (i : Nat) : (text.take i).drop i = [] := by
  rw [List.drop_take, Nat.sub_self, List.take_zero]

/-- The opening brace of a block, and what stands between it and the body. -/
theorem substitute_opening {text : Chars} {p : Promotion} {es : List Edit}
    (hle : p.header ≤ p.body.start) (h : Edit.Ordered text.toList.length p.body.start es) :
    Edit.substitute text.toList p.header (p.opening :: es) =
      [' ', '\x7b'] ++ lead text p ++ Edit.substitute text.toList p.body.start es := by
  rw [Edit.substitute_cons, span_opening, drop_take_self, List.nil_append, stop_opening, lead]
  by_cases hadj : p.adjacent
  · simp [Promotion.opening, hadj]
  · simp only [Promotion.opening, hadj, Bool.false_eq_true, if_false, Edit.insertAt]
    rw [Edit.substitute_kept hle h, sliceOf_eq, List.append_assoc]

/-- The closing brace of a block. -/
theorem substitute_closing {text : Chars} {p : Promotion} {es : List Edit} :
    Edit.substitute text.toList p.body.stop (p.closing :: es) =
      ['\n'] ++ p.indent ++ ['\x7d'] ++ Edit.substitute text.toList p.body.stop es := by
  rw [Edit.substitute_cons, span_closing, drop_take_self, List.nil_append]
  rfl

/-- The text with the braces of all blocks is what the edits make of it, all at once. -/
theorem substitute_edits {text : Chars} {ps : Pieces} {lo hi : Nat} {es : List Edit}
    (hp : ps.Covers lo hi) (h : Edit.Ordered text.toList.length hi es) :
    Edit.substitute text.toList lo (ps.edits.map (·.1) ++ es) =
      ps.written text ++ Edit.substitute text.toList hi es := by
  induction ps generalizing lo hi es with
  | nil =>
    obtain rfl : lo = hi := hp
    rfl
  | kept span rest ih =>
    obtain ⟨hstart, hle, hrest⟩ := hp
    rw [edits, Edit.substitute_kept hle (ordered_edits hrest h), ih hrest h, written, ← hstart,
      ← sliceOf_eq, List.append_assoc]
  | block p inside rest ihi ihr =>
    obtain ⟨hheader, hbody, hinside, hrest⟩ := hp
    have hclosed : Edit.Ordered text.toList.length p.body.stop
        (p.closing :: (rest.edits.map (·.1) ++ es)) :=
      ⟨Nat.le_refl _, Nat.le_refl _, ordered_edits hrest h⟩
    simp only [edits, List.map_cons, List.map_append, List.cons_append, List.append_assoc, written]
    rw [← hheader, substitute_opening (hheader ▸ hbody) (ordered_edits hinside hclosed),
      ihi hinside hclosed, substitute_closing, ihr hrest h]
    simp only [List.append_assoc, List.cons_append, List.nil_append]

/-! ### The order of the edits -/

/-- An edit stands before another one: it begins earlier, or at the same offset inside more
nodes. -/
def Before (a b : Edit × Nat) : Prop :=
  a.1.span.start < b.1.span.start ∨ a.1.span.start = b.1.span.start ∧ b.2 < a.2

/-- Pieces for some promotions, all of them inside more than `depth` nodes, whose edits stand in
order behind an offset. -/
structure Fits (depth lo hi : Nat) (promos : List Promotion) (ps : Pieces) : Prop where
  covers : ps.Covers lo hi
  perm : ps.promotions.Perm promos
  sorted : ps.edits.Pairwise Before
  inside : ∀ e ∈ ps.edits, lo < e.1.span.start ∧ e.1.span.start ≤ hi ∧ depth < e.2

theorem Fits.weaken {depth depth' lo hi : Nat} {promos : List Promotion} {ps : Pieces}
    (h : Fits depth lo hi promos ps) (hd : depth' ≤ depth) : Fits depth' lo hi promos ps :=
  ⟨h.covers, h.perm, h.sorted, fun e he =>
    ⟨(h.inside e he).1, (h.inside e he).2.1, Nat.lt_of_le_of_lt hd (h.inside e he).2.2⟩⟩

theorem fits_kept {depth lo hi : Nat} (h : lo ≤ hi) : Fits depth lo hi [] (kept ⟨lo, hi⟩ nil) :=
  ⟨⟨rfl, h, rfl⟩, .nil, .nil, nofun⟩

theorem Fits.append {depth lo mid hi : Nat} {ps₁ ps₂ : List Promotion} {qs₁ qs₂ : Pieces}
    (h₁ : Fits depth lo mid ps₁ qs₁) (h₂ : Fits depth mid hi ps₂ qs₂) :
    Fits depth lo hi (ps₁ ++ ps₂) (qs₁.append qs₂) where
  covers := h₁.covers.append h₂.covers
  perm := by
    rw [promotions_append]
    exact h₁.perm.append h₂.perm
  sorted := by
    rw [edits_append, List.pairwise_append]
    refine ⟨h₁.sorted, h₂.sorted, fun a ha b hb => .inl ?_⟩
    have := (h₁.inside a ha).2.1
    have := (h₂.inside b hb).1
    omega
  inside := by
    intro e he
    have := h₁.covers.le
    have := h₂.covers.le
    rw [edits_append, List.mem_append] at he
    rcases he with he | he
    · have := h₁.inside e he
      omega
    · have := h₂.inside e he
      omega

/-- A block behind what stands in front of its header.  The edits of all its parts lie deeper than
its own, so its opening brace follows the braces that end at its header, and its closing brace
those that end with its body. -/
theorem fits_block {depth lo hi : Nat} {p : Promotion} {ps₁ ps₂ ps₃ : List Promotion}
    {before inside rest : Pieces} (hdepth : p.depth = depth + 1) (hlo : lo < p.header)
    (hheader : p.header ≤ p.body.start) (hbody : p.body.start < p.body.stop)
    (h₁ : Fits (depth + 1) lo p.header ps₁ before)
    (h₂ : Fits (depth + 1) p.body.start p.body.stop ps₂ inside)
    (h₃ : Fits (depth + 1) p.body.stop hi ps₃ rest) :
    Fits depth lo hi (p :: (ps₁ ++ (ps₂ ++ ps₃))) (before.append (block p inside rest)) where
  covers := h₁.covers.append ⟨rfl, hheader, h₂.covers, h₃.covers⟩
  perm := by
    rw [promotions_append]
    exact List.perm_middle.trans ((h₁.perm.append (h₂.perm.append h₃.perm)).cons p)
  sorted := by
    have hopen : p.opening.span.start = p.header := span_opening p
    have hclose : p.closing.span.start = p.body.stop := rfl
    simp only [edits_append, edits, List.pairwise_append, List.pairwise_cons, List.mem_append,
      List.mem_cons]
    refine ⟨h₁.sorted, ⟨?opening, h₂.sorted, ⟨?closing, h₃.sorted⟩, ?inside⟩, ?before⟩
    case opening =>
      rintro b (hb | rfl | hb)
      · have := h₂.inside b hb
        exact .inl (by simp only; omega)
      · exact .inl (by simp only; omega)
      · have := h₃.inside b hb
        exact .inl (by simp only; omega)
    case closing =>
      intro b hb
      have := h₃.inside b hb
      exact .inl (by simp only; omega)
    case inside =>
      rintro a ha b (rfl | hb)
      · have := h₂.inside a ha
        unfold Before
        simp only
        omega
      · have := h₂.inside a ha
        have := h₃.inside b hb
        exact .inl (by omega)
    case before =>
      rintro a ha b (rfl | hb | rfl | hb)
      · have := h₁.inside a ha
        unfold Before
        simp only
        omega
      · have := h₁.inside a ha
        have := h₂.inside b hb
        exact .inl (by omega)
      · have := h₁.inside a ha
        exact .inl (by simp only; omega)
      · have := h₁.inside a ha
        have := h₃.inside b hb
        exact .inl (by omega)
  inside := by
    have hopen : p.opening.span.start = p.header := span_opening p
    have hclose : p.closing.span.start = p.body.stop := rfl
    have hle := h₃.covers.le
    intro e he
    simp only [edits_append, edits, List.mem_append, List.mem_cons] at he
    rcases he with he | rfl | he | rfl | he
    · have := h₁.inside e he
      omega
    · simp only
      omega
    · have := h₂.inside e he
      omega
    · simp only
      omega
    · have := h₃.inside e he
      omega

end Pieces

/-! ### Trees fall into pieces -/

namespace Syntax.Source

/-- The promotions of the nodes of a tree. -/
def promotionsIn (s : Source) (p : Place) (t : Tree) : List Promotion :=
  (t.walkWith s.placeOf (fun _ _ => .enter) p).filterMap fun (t, p) => s.promotion? t p

/-- The promotions of the nodes of some children of a node. -/
def promotionsBelow (s : Source) (parent : Tree) (p : Place) (ts : List Tree) : List Promotion :=
  (Tree.walkChildrenWith s.placeOf (fun _ _ => .enter) parent p ts).filterMap
    fun (t, p) => s.promotion? t p

theorem promotions_eq (s : Source) :
    s.promotions = s.promotionsIn ⟨s.lineIndent s.root.start, 0⟩ s.root := rfl

theorem promotionsIn_node (s : Source) (p : Place) (l : Label) (r : Option Role) (span : Span)
    (ts : List Tree) : s.promotionsIn p (.node l r span ts) =
      (s.promotion? (.node l r span ts) p).toList ++
        s.promotionsBelow (.node l r span ts) p ts := by
  rw [promotionsIn, Tree.walkWith]
  simp only [List.filterMap_cons]
  cases s.promotion? (.node l r span ts) p <;> rfl

theorem promotionsBelow_cons (s : Source) (parent : Tree) (p : Place) (t : Tree) (ts : List Tree) :
    s.promotionsBelow parent p (t :: ts) =
      s.promotionsIn (s.placeOf parent p t) t ++ s.promotionsBelow parent p ts := by
  simp [promotionsBelow, promotionsIn, Tree.walkChildrenWith]

theorem promotionsBelow_append (s : Source) (parent : Tree) (p : Place) (ts us : List Tree) :
    s.promotionsBelow parent p (ts ++ us) =
      s.promotionsBelow parent p ts ++ s.promotionsBelow parent p us := by
  induction ts with
  | nil => rfl
  | cons t ts ih => simp [promotionsBelow_cons, ih]

/-- Comments have no parts, so nothing inside them is promoted. -/
theorem promotionsBelow_comments {s : Source} {parent : Tree} {p : Place} {ts : List Tree}
    {lo hi : Nat} (hlaid : LaidFrom lo ts hi) (h : ∀ t ∈ ts, t.is .comment) :
    s.promotionsBelow parent p ts = [] := by
  induction ts generalizing lo with
  | nil => rfl
  | cons t ts ih =>
    rw [laidFrom_cons] at hlaid
    rw [promotionsBelow_cons, ih hlaid.2.2 fun u hu => h u (List.mem_cons_of_mem t hu),
      List.append_nil]
    have hc := h t List.mem_cons_self
    obtain ⟨l, r, span, us⟩ := t
    obtain rfl : l = .rule .comment := of_decide_eq_true hc
    obtain rfl : us = [] := hlaid.2.1.formed
    rw [promotionsIn_node, promotion?_eq_none rfl]
    rfl

open Pieces

/-- The children of a node fall into pieces if each of them does. -/
theorem exists_piecesBelow (s : Source) (parent : Tree) (p : Place) {ts : List Tree} {lo hi : Nat}
    (hts : LaidFrom lo ts hi) (h : ∀ t ∈ ts, t.Laid → ∀ p : Place,
      ∃ ps, Fits p.depth t.start t.stop (s.promotionsIn p t) ps) :
    ∃ ps, Fits (p.depth + 1) lo hi (s.promotionsBelow parent p ts) ps := by
  induction ts generalizing lo with
  | nil => exact ⟨_, fits_kept (laidFrom_nil.1 hts)⟩
  | cons t ts ih =>
    rw [laidFrom_cons] at hts
    obtain ⟨qs, hqs⟩ := h t List.mem_cons_self hts.2.1 (s.placeOf parent p t)
    obtain ⟨rs, hrs⟩ := ih hts.2.2 fun u hu => h u (List.mem_cons_of_mem t hu)
    rw [promotionsBelow_cons]
    exact ⟨_, (fits_kept hts.1).append (hqs.append hrs)⟩

/-- Every tree that is laid out falls into pieces. -/
theorem exists_pieces (s : Source) (t : Tree) : t.Laid → ∀ p : Place,
    ∃ ps, Fits p.depth t.start t.stop (s.promotionsIn p t) ps := by
  induction t using Tree.induction with
  | node l r span ts ih =>
    intro ht p
    have hts : LaidFrom span.start ts span.stop := ht.children
    rw [promotionsIn_node]
    cases hq : s.promotion? (.node l r span ts) p with
    | none =>
      obtain ⟨ps, hps⟩ := exists_piecesBelow s _ p hts ih
      exact ⟨ps, hps.weaken (Nat.le_succ p.depth)⟩
    | some q =>
      obtain ⟨body, header, hbody, hlast, rfl⟩ := promotion?_eq_some hq
      obtain ⟨header', hlast', _, pre, mid, post, hsplit, hmid⟩ := Tree.exists_heads ht hbody
      obtain rfl : header = header' := Option.some.inj (hlast.symm.trans hlast')
      obtain rfl : ts = (pre ++ [header]) ++ (mid ++ body :: post) := by simpa using hsplit
      obtain ⟨lo, hpre, hrest⟩ := laidFrom_append.1 hts
      obtain ⟨hi, hcomments, hbehind⟩ := laidFrom_append.1 hrest
      rw [laidFrom_concat] at hpre
      rw [laidFrom_cons] at hbehind
      have hpre' : LaidFrom span.start (pre ++ [header]) header.stop :=
        laidFrom_concat.2 ⟨hpre.1, hpre.2.1, Nat.le_refl _⟩
      have hle := hcomments.le
      have hlt := hpre.2.1.lt
      have hge := hpre.1.le
      change ∃ ps, Fits p.depth span.start span.stop ((some _).toList ++ s.promotionsBelow _ p _) ps
      generalize Tree.node l r span (pre ++ [header] ++ (mid ++ body :: post)) = owner
      obtain ⟨before, hbefore⟩ := exists_piecesBelow s owner p hpre'
        fun t ht => ih t (List.mem_append_left _ ht)
      obtain ⟨rest, hrest⟩ := exists_piecesBelow s owner p hbehind.2.2
        fun t ht => ih t (by simp [ht])
      obtain ⟨inside, hinside⟩ := ih body (by simp) hbehind.2.1 (s.placeOf owner p body)
      rw [promotionsBelow_append s _ p (pre ++ [header]), promotionsBelow_append s _ p mid,
        promotionsBelow_comments hcomments hmid, List.nil_append, promotionsBelow_cons]
      have hstart : span.start < header.stop := by omega
      have hgap : header.stop ≤ body.start := by omega
      have hfits := fits_block (p := ⟨header.stop, body.span, p.indent, p.depth + 1,
        s.blankBetween header.stop body.start⟩) rfl hstart hgap hbehind.2.1.lt hbefore hinside hrest
      exact ⟨_, hfits⟩

/-- Every source falls into pieces. -/
theorem exists_pieces_root {s : Source} (h : Rooted s.text s.root) :
    ∃ ps : Pieces, ps.Covers 0 s.text.size ∧ ps.promotions.Perm s.promotions ∧
      ps.edits.Pairwise Before := by
  obtain ⟨text, root⟩ := s
  obtain ⟨l, r, span, ts⟩ := root
  obtain rfl : l = .rule .program := h.label
  obtain ⟨ps, hps⟩ := exists_piecesBelow ⟨text, .node (.rule .program) r span ts⟩
    (.node (.rule .program) r span ts) ⟨lineIndent ⟨text, .node (.rule .program) r span ts⟩ span.start, 0⟩
    h.laid fun t _ => exists_pieces _ t
  have hstop : span.stop = text.size := h.stop
  refine ⟨kept ⟨0, span.start⟩ ps, ⟨rfl, Nat.zero_le _, hstop ▸ hps.covers⟩, ?_, hps.sorted⟩
  rw [promotions_eq, promotionsIn_node, promotion?_eq_none rfl]
  exact hps.perm

/-! ### The normal form -/

/-- Whether an edit is carried out before another one: it begins later, or at the same offset
inside fewer nodes. -/
def later (a b : Edit × Nat) : Bool :=
  decide (b.1.span.start < a.1.span.start) ||
    decide (a.1.span.start = b.1.span.start) && decide (a.2 ≤ b.2)

theorem later_iff {a b : Edit × Nat} : later a b ↔ b.1.span.start < a.1.span.start ∨
    a.1.span.start = b.1.span.start ∧ a.2 ≤ b.2 := by
  simp [later]

theorem later_trans {a b c : Edit × Nat} (hab : later a b) (hbc : later b c) : later a c := by
  rw [later_iff] at *
  omega

theorem later_total (a b : Edit × Nat) : later a b || later b a := by
  rw [Bool.or_eq_true, later_iff, later_iff]
  omega

theorem normalEdits_eq_mergeSort (s : Source) : s.normalEdits =
    ((s.promotions.flatMap fun p => [(p.opening, p.depth), (p.closing, p.depth)]).mergeSort
      later).map (·.1) := rfl

/-- No two edits of pieces in order have the same place in the order, so there is only one way to
sort them. -/
theorem normalEdits_eq_of_sorted {s : Source} {ps : Pieces}
    (hperm : ps.promotions.Perm s.promotions) (hsorted : ps.edits.Pairwise Before)
    {es : List (Edit × Nat)}
    (hes : es.Perm (s.promotions.flatMap fun p => [(p.opening, p.depth), (p.closing, p.depth)]))
    (hlater : es.Pairwise fun a b => later a b) : s.normalEdits = es.map (·.1) := by
  have hdistinct : ∀ a ∈ ps.edits, ∀ b ∈ ps.edits, a = b ∨ Before a b ∨ Before b a := by
    intro a ha b hb
    exact List.Pairwise.forall_of_forall_of_flip (R := fun a b => a = b ∨ Before a b ∨ Before b a)
      (fun _ _ => .inl rfl) (hsorted.imp fun h => .inr (.inl h))
      (hsorted.imp fun h => .inr (.inr h)) ha hb
  have hedits := ps.edits_perm.trans (hperm.flatMap_right _)
  have hmem := (List.mergeSort_perm _ later).trans hedits.symm
  have hmem' := hes.trans hedits.symm
  rw [normalEdits_eq_mergeSort]
  congr 1
  have hmerge := List.pairwise_mergeSort
    (fun a b c (hab : later a b) (hbc : later b c) => later_trans hab hbc) later_total
    (s.promotions.flatMap fun p => [(p.opening, p.depth), (p.closing, p.depth)])
  refine List.Perm.eq_of_pairwise ?_ hmerge hlater (hmem.trans hmem'.symm)
  intro a b ha hb hab hba
  rw [later_iff] at hab hba
  rcases hdistinct a (hmem.mem_iff.1 ha) b (hmem'.mem_iff.1 hb) with h | h | h
  · exact h
  · unfold Before at h
    omega
  · unfold Before at h
    omega

/-- The edits of the normal form are those of the pieces, the last ones first. -/
theorem normalEdits_eq {s : Source} {ps : Pieces} (hperm : ps.promotions.Perm s.promotions)
    (hsorted : ps.edits.Pairwise Before) : s.normalEdits = (ps.edits.map (·.1)).reverse := by
  have hedits := ps.edits_perm.trans (hperm.flatMap_right _)
  rw [← List.map_reverse]
  refine normalEdits_eq_of_sorted hperm hsorted ((List.reverse_perm _).trans hedits) ?_
  rw [List.pairwise_reverse]
  refine hsorted.imp fun {a b} h => ?_
  rw [later_iff]
  unfold Before at h
  omega

/-- The edits of the normal form by a sort that goes down the list, so that it can be run. -/
def sortedEdits (s : Source) : List Edit :=
  ((s.promotions.flatMap fun p => [(p.opening, p.depth), (p.closing, p.depth)]).insertionSort
    fun a b => later a b).map (·.1)

theorem normalEdits_eq_sortedEdits {s : Source} (h : Rooted s.text s.root) :
    s.normalEdits = s.sortedEdits := by
  obtain ⟨ps, -, hperm, hsorted⟩ := exists_pieces_root h
  have htotal : Std.Total fun a b : Edit × Nat => later a b = true :=
    ⟨fun a b => Bool.or_eq_true_iff.1 (later_total a b)⟩
  have htrans : IsTrans (Edit × Nat) fun a b => later a b = true := ⟨fun _ _ _ => later_trans⟩
  exact normalEdits_eq_of_sorted hperm hsorted (List.perm_insertionSort _ _)
    (List.pairwise_insertionSort _ _)

/-- A source with one promotion is edited twice. -/
theorem normalEdits_of_singleton {s : Source} {p : Promotion} (hp : s.promotions = [p])
    (hlt : p.header < p.body.stop) : s.normalEdits = [p.closing, p.opening] := by
  have hbefore : Before (p.opening, p.depth) (p.closing, p.depth) := by
    refine .inl ?_
    rw [span_opening, span_closing]
    exact hlt
  exact @normalEdits_eq s (.block p .nil .nil) (hp ▸ .refl _) (List.pairwise_pair.2 hbefore)

/-- The pieces of a text carry the edits of its normal form. -/
theorem exists_pieces_of_rooted {s : Source} (h : Rooted s.text s.root) :
    ∃ ps : Pieces, ps.Covers 0 s.text.size ∧ ps.promotions.Perm s.promotions ∧
      ps.edits.map (·.1) = s.normalEdits.reverse ∧
      Edit.Ordered s.text.size 0 s.normalEdits.reverse := by
  obtain ⟨ps, hcovers, hperm, hsorted⟩ := exists_pieces_root h
  have hedits : s.normalEdits.reverse = ps.edits.map (·.1) := by
    rw [normalEdits_eq hperm hsorted, List.reverse_reverse]
  have hordered := ordered_edits hcovers
    (show Edit.Ordered s.text.size s.text.size [] from Nat.le_refl _)
  rw [List.append_nil, ← hedits] at hordered
  exact ⟨ps, hcovers, hperm, hedits.symm, hordered⟩

/-- The pieces of a text that follows the grammar carry the edits of its normal form. -/
theorem exists_pieces_of_parse {text : String} {s : Source} (h : Source.parse text = .ok s) :
    ∃ ps : Pieces, ps.Covers 0 text.toList.length ∧ ps.promotions.Perm s.promotions ∧
      ps.edits.map (·.1) = s.normalEdits.reverse ∧
      Edit.Ordered text.toList.length 0 s.normalEdits.reverse := by
  obtain ⟨htext, -, hroot⟩ := rooted_of_parse h
  have hlen : s.text.size = text.toList.length := by rw [htext, List.size_toArray]
  rw [← hlen]
  exact exists_pieces_of_rooted hroot

/-- The normal form of a text, by a sort that can be run. -/
theorem normalize_eq_ofList {text : String} {s : Source} (h : Source.parse text = .ok s) :
    normalize text = String.ofList (Edit.applyEach text.toList s.sortedEdits) := by
  obtain ⟨htext, -, hroot⟩ := rooted_of_parse h
  rw [normalize_of_ok h, normalized, htext, normalEdits_eq_sortedEdits hroot]

/-- A text and its normal form, where what is read from them passes a test. -/
theorem exists_normal_of_any {text normal : String} {p : Source → Source → Bool}
    (h : (Source.parse text).toOption.any fun s =>
      decide (Edit.applyEach text.toList s.sortedEdits = normal.toList) &&
        (Source.parse normal).toOption.any (p s)) :
    normalize text = normal ∧
      ∃ s s', Source.parse text = .ok s ∧ Source.parse normal = .ok s' ∧ p s s' := by
  obtain ⟨s, hs, h⟩ := exists_ok_of_any h
  obtain ⟨hnormal, h⟩ := Bool.and_eq_true_iff.1 h
  obtain ⟨s', hs', hp⟩ := exists_ok_of_any h
  refine ⟨?_, s, s', hs, hs', hp⟩
  rw [normalize_eq_ofList hs, of_decide_eq_true hnormal, String.ofList_toList]

/-- The normal form of a text is the text with all edits at once. -/
theorem toList_normalize {text : String} {s : Source} (h : Source.parse text = .ok s) :
    (normalize text).toList = Edit.substitute text.toList 0 s.normalEdits.reverse := by
  obtain ⟨-, -, -, -, hordered⟩ := exists_pieces_of_parse h
  have happly := Edit.applyEach_reverse hordered
  rw [List.reverse_reverse, List.take_zero, List.nil_append] at happly
  rw [normalize_of_ok h, normalized, String.toList_ofList, (rooted_of_parse h).1, happly]

/-- **Normal form puts braces around the promoted bodies, all at once.**  Every body that is a
single statement has its promotion; the edits of the promotions do not overlap, and carrying them
out one by one substitutes them all; the text falls into stretches that are kept and nested blocks,
one for each promotion and each around its body. -/
theorem normalize_eq_written {text : String} {s : Source} (h : Source.parse text = .ok s) :
    List.Forall₂ s.Promotes (s.root.nodes.filter (·.bareBody?.isSome)) s.promotions ∧
    s.normalEdits.reverse.Pairwise (fun a b => a.span.stop ≤ b.span.start) ∧
    (normalize text).toList = Edit.substitute text.toList 0 s.normalEdits.reverse ∧
    ∃ ps : Pieces, ps.Covers 0 text.toList.length ∧ ps.promotions.Perm s.promotions ∧
      ps.edits.map (·.1) = s.normalEdits.reverse ∧
      (normalize text).toList = ps.written text.toList.toArray := by
  obtain ⟨ps, hcovers, hperm, hedits, hordered⟩ := exists_pieces_of_parse h
  refine ⟨forall₂_promotions (rooted_of_parse h).2.2, hordered.pairwise, toList_normalize h, ps,
    hcovers, hperm, hedits, ?_⟩
  have hwritten : Edit.substitute text.toList 0 (ps.edits.map (·.1) ++ []) =
      ps.written text.toList.toArray ++ Edit.substitute text.toList text.toList.length [] :=
    substitute_edits hcovers (Nat.le_refl _)
  rw [List.append_nil, Edit.substitute_nil, List.drop_length, List.append_nil, hedits] at hwritten
  rw [toList_normalize h, hwritten]

/-- A branch inside a loop: both bodies end at the same offset, and the inner one begins where its
header ends. -/
theorem normalize_branch_in_loop : ∃ s : Source, Source.parse "do if(a)b();while(c)" = .ok s ∧
    (s.promotions.map fun p => (p.header, p.body.start, p.body.stop)) = [(2, 3, 12), (8, 8, 12)] ∧
    ∃ ps : Pieces, ps.Covers 0 20 ∧ ps.promotions.Perm s.promotions ∧
      ps.edits.map (·.1) = s.normalEdits.reverse ∧
      (normalize "do if(a)b();while(c)").toList =
        ps.written "do if(a)b();while(c)".toList.toArray := by
  have hread : ((Source.parse "do if(a)b();while(c)").toOption.map fun s =>
      s.promotions.map fun p => (p.header, p.body.start, p.body.stop)) =
        some [(2, 3, 12), (8, 8, 12)] := by decide +kernel
  cases h : Source.parse "do if(a)b();while(c)" with
  | error e =>
    rw [h] at hread
    simp [Except.toOption] at hread
  | ok s =>
    rw [h] at hread
    exact ⟨s, rfl, Option.some.inj hread, (normalize_eq_written h).2.2.2⟩

end Syntax.Source

end FlowAnalysis
