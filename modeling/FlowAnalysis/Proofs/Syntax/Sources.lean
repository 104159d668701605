import FlowAnalysis.Proofs.Syntax.Defects
import FlowAnalysis.Proofs.Syntax.Grammar
import FlowAnalysis.Syntax.Source

/-!
# Sources are laid out

A source is read from a text without a defect, at once or after some tries to mend the text.
Whatever has been tried, its tree is laid out on the text.

## Main definitions

* `Rooted` — a tree that is laid out on a whole text.
* `Bid.Sound` — a bid whose tree, if it is finished and has no defect, has been read with patches.

## Main results

* `rooted_of_parse` — **the tree of every source is laid out on its text.**
-/

namespace FlowAnalysis.Syntax

open Lexeme

/-- A tree that is laid out on a whole text. -/
structure Rooted (text : Chars) (root : Tree) : Prop where
  label : root.label = .rule .program
  role : root.role = none
  stop : root.stop = text.size
  laid : LaidFrom root.start root.children root.stop

/-! ### Reading with patches -/

theorem rooted_readWith {patches : List Patch} {text : Chars} {root : Tree}
    (h : readWith patches text = .finished root) (hc : root.firstDefect? = none) :
    Rooted text root := by
  simp only [readWith] at h
  split at h
  · simp at h
  · next a s hs =>
    split at h
    · next hend =>
      obtain rfl := Reading.finished.inj h
      have hl : State.Leads .keeps false _ s := Grammar.lays_program.leads hs
      have hflush : State.Leads .keeps false _ s.flush :=
        hl.trans (State.leads_flush s) (by simp) (by simp) (by simp)
      have hclean : Clean s.flush.out := clean_reverse.1 (Tree.firstDefect?_node.1 hc).2
      have hlaid : LaidFrom 0 s.flush.out.reverse s.flush.pos :=
        hflush.laid_of_keeps hclean (laidFrom_nil.2 (Nat.zero_le _))
      have hpos : s.flush.pos ≤ text.size := by
        rw [← hend]
        exact le_skipBlanks text _
      refine ⟨rfl, rfl, rfl, ?_⟩
      simp only [Tree.start, Tree.stop, Tree.span_node, Tree.children_node]
      cases hts : s.flush.out.reverse with
      | nil => simp
      | cons first rest =>
        rw [hts] at hlaid
        simp only [List.head?_cons, Option.map_some, Option.getD_some]
        rw [laidFrom_cons] at hlaid ⊢
        exact ⟨Nat.le_refl _, hlaid.2.1, hlaid.2.2.mono (Nat.le_refl _) hpos⟩
    · simp at h

/-! ### Mending -/

/-- A finished reading without a defect has been read with patches. -/
def Reading.Sound (text : Chars) (r : Reading) : Prop :=
  ∀ root, r = .finished root → root.firstDefect? = none →
    ∃ patches, readWith patches text = .finished root

/-- A bid whose tree, if it is finished and has no defect, has been read with patches. -/
def Bid.Sound (text : Chars) (b : Bid) : Prop := b.reading.Sound text

theorem Bid.sound_ofPatches (text : Chars) (patches : List Patch) :
    (Bid.ofPatches text patches).Sound text :=
  fun _ h _ => ⟨patches, h⟩

theorem Bid.better_eq (text : Chars) (origin : Nat) (a b : Bid) :
    Bid.better text origin a b = a ∨ Bid.better text origin a b = b := by
  unfold Bid.better
  have hpair : (if b.before a then (b, a) else (a, b)) = (b, a) ∨
      (if b.before a then (b, a) else (a, b)) = (a, b) := by
    split
    · exact .inl rfl
    · exact .inr rfl
  rcases hpair with h | h
  all_goals
    rw [h]
    dsimp only
    split
    · simp
    · split <;> simp

theorem Bid.best?_mem {text : Chars} {origin : Nat} {bs : List Bid} {b : Bid}
    (h : Bid.best? text origin bs = some b) : b ∈ bs := by
  cases bs with
  | nil => simp [best?] at h
  | cons a as =>
    simp only [best?, Option.some.injEq] at h
    subst h
    induction as generalizing a with
    | nil => simp
    | cons c cs ih =>
      rw [List.foldl_cons]
      have := ih (Bid.better text origin a c)
      rcases Bid.better_eq text origin a c with h | h
      all_goals
        rw [h] at this ⊢
        simp only [List.mem_cons] at this ⊢
        tauto

namespace Impasse

theorem sound_supplyBid? {text : Chars} {patches : List Patch} {i : Impasse} {b : Bid}
    (h : i.supplyBid? text patches = some b) : b.Sound text := by
  unfold supplyBid? at h
  split at h
  · simp at h
  · obtain ⟨what, _, hb⟩ := List.exists_of_findSome?_eq_some h
    simp only at hb
    split at hb
    · exact Option.some.inj hb ▸ Bid.sound_ofPatches text _
    · simp at hb

theorem sound_skipBid? {text : Chars} {patches : List Patch} {i : Impasse} {passed : List Stray}
    {target : Nat} {b : Bid} (h : i.skipBid? text patches passed target = some b) :
    b.Sound text := by
  unfold skipBid? at h
  obtain ⟨r, _, hb⟩ := List.exists_of_findSome?_eq_some h
  simp only at hb
  split at hb
  · exact Option.some.inj hb ▸ Bid.sound_ofPatches text _
  · simp at hb

/-- A text that is given up as a whole is a defect. -/
theorem sound_hopelessBid (text : Chars) (i : Impasse) (passed : List Stray) :
    (i.hopelessBid text passed).Sound text := by
  rintro root ⟨⟩ hc
  simp [hopeless, Tree.firstDefect?_node, Tree.isDefect] at hc

theorem sound_completion? {text : Chars} {b c : Bid} (hb : b.Sound text)
    (h : completion? text b = some c) : c.Sound text := by
  unfold completion? at h
  split at h
  · exact Option.some.inj h ▸ hb
  · split at h
    · exact sound_supplyBid? h
    · simp at h

theorem sound_wayOnUpTo {text : Chars} {patches : List Patch} {i : Impasse} : ∀ {n : Nat}
    {passed : List Stray} {bids : List Bid} {b : Bid}, (∀ b ∈ bids, b.Sound text) →
    i.wayOnUpTo text patches n passed bids = some b → b.Sound text := by
  intro n
  induction n with
  | zero =>
    intro passed bids b hbids h
    exact hbids b (Bid.best?_mem h)
  | succ n ih =>
    intro passed bids b hbids h
    simp only [wayOnUpTo] at h
    split at h
    · have hmem := Bid.best?_mem h
      simp only [List.mem_append, List.mem_filterMap, Option.mem_toList, List.mem_singleton] at hmem
      rcases hmem with (⟨a, ha, hab⟩ | hb) | rfl
      · exact sound_completion? (hbids a ha) hab
      · exact sound_skipBid? hb
      · exact sound_hopelessBid text i passed
    · have hkept : ∀ keep : Bid → Bool, ∀ b ∈ bids.filter keep, b.Sound text :=
        fun _ b hb => hbids b (List.mem_of_mem_filter hb)
      have hmore : ∀ (keep : Bid → Bool) (target : Nat),
          ∀ b ∈ bids.filter keep ++ (i.skipBid? text patches passed target).toList,
            b.Sound text := by
        intro keep target b hb
        rw [List.mem_append, Option.mem_toList] at hb
        rcases hb with hb | hb
        · exact hkept keep b hb
        · exact sound_skipBid? hb
      split at h
      · split at h
        · exact hmore _ _ b (Bid.best?_mem h)
        · exact ih (hmore _ _) h
      · split at h
        · exact hkept _ b (Bid.best?_mem h)
        · exact ih (hkept _) h

theorem sound_wayOn {text : Chars} {patches : List Patch} {i : Impasse} {b : Bid}
    (h : i.wayOn text patches = some b) : b.Sound text :=
  sound_wayOnUpTo (fun _ hb => sound_supplyBid? (Option.mem_toList.1 hb)) h

end Impasse

theorem clean_iff {ts : List Tree} : Clean ts ↔ ∀ t ∈ ts, t.firstDefect? = none := by
  induction ts with
  | nil => simp
  | cons t ts ih => simp [ih]

theorem Patch.firstDefect?_leaf (p : Patch) : p.leaf.firstDefect? ≠ none := by
  cases p with
  | skip span trees => exact firstDefect?_error
  | supply offset what => exact firstDefect?_missing

/-- A tree that shows nothing but patches has no defect only if there are none. -/
theorem eq_nil_of_outline {text : Chars} {patches : List Patch}
    (hc : (outline text patches).firstDefect? = none) : patches = [] := by
  have hclean := clean_iff.1 (Tree.firstDefect?_node.1 hc).2
  cases patches with
  | nil => rfl
  | cons p ps =>
    have hmem : p.leaf ∈ ((p :: ps).map Patch.leaf).mergeSort fun a b => a.start ≤ b.start := by
      simp
    exact absurd (hclean _ hmem) p.firstDefect?_leaf

theorem rooted_outline (text : Chars) : Rooted text (outline text []) := by
  refine ⟨rfl, rfl, rfl, ?_⟩
  simp only [outline, List.map_nil, List.mergeSort_nil, Tree.children_node, laidFrom_nil]
  exact runEnd_le text _ (Nat.zero_le _)

theorem mend_cases {text : Chars} : ∀ {n : Nat} {patches : List Patch} {i : Impasse},
    (mend text n patches i).firstDefect? = none →
      (∃ patches', readWith patches' text = .finished (mend text n patches i)) ∨
        mend text n patches i = outline text [] := by
  intro n
  induction n with
  | zero =>
    intro patches i hc
    rw [mend] at hc ⊢
    exact .inr (by rw [eq_nil_of_outline hc])
  | succ n ih =>
    intro patches i hc
    rw [mend] at hc ⊢
    split at hc
    · simp [hopeless, Tree.firstDefect?_node, Tree.isDefect] at hc
    · next b hb =>
      split at hc
      · next root hroot => exact .inl (Impasse.sound_wayOn hb root hroot hc)
      · next j hj => exact ih hc

/-- A tree without a defect has been read with some patches, or there is nothing in it. -/
theorem ofText_cases {text : Chars} (hc : (Tree.ofText text).firstDefect? = none) :
    (∃ patches, readWith patches text = .finished (Tree.ofText text)) ∨
      Tree.ofText text = outline text [] := by
  unfold Tree.ofText at hc ⊢
  split at hc
  · next root hroot => exact .inl ⟨[], hroot⟩
  · exact mend_cases hc

theorem rooted_ofText {text : Chars} (hc : (Tree.ofText text).firstDefect? = none) :
    Rooted text (Tree.ofText text) := by
  rcases ofText_cases hc with ⟨patches, h⟩ | h
  · exact rooted_readWith h hc
  · exact h ▸ rooted_outline text

/-- Only texts whose trees have no defect become sources. -/
theorem Source.parse_eq_ok {text : String} {s : Source} (h : Source.parse text = .ok s) :
    s = ⟨text.toList.toArray, Tree.ofText text.toList.toArray⟩ ∧
      (Tree.ofText text.toList.toArray).firstDefect? = none := by
  rw [Source.parse, Source.ofTree_eq (Tree.wellMarked_hasDefect _), ← Tree.firstDefect?_eq_find?] at h
  split at h
  · next hc => exact ⟨(Except.ok.inj h).symm, hc⟩
  · simp at h

/-- **The tree of every source is laid out on its text.** -/
theorem rooted_of_parse {text : String} {s : Source} (h : Source.parse text = .ok s) :
    s.text = text.toList.toArray ∧ s.root.firstDefect? = none ∧ Rooted s.text s.root := by
  obtain ⟨rfl, hc⟩ := Source.parse_eq_ok h
  exact ⟨rfl, hc, rooted_ofText hc⟩

theorem eq_ok_of_toOption {ε α : Type} {x : Except ε α} {a : α} (h : x.toOption = some a) :
    x = .ok a := by
  cases x with
  | error e => cases h
  | ok b => exact congrArg Except.ok (Option.some.inj h)

theorem exists_ok_of_any {ε α : Type} {x : Except ε α} {p : α → Bool} (h : x.toOption.any p) :
    ∃ a, x = .ok a ∧ p a := by
  obtain ⟨a, ha, hp⟩ := (Option.any_eq_true _ _).1 h
  exact ⟨a, eq_ok_of_toOption ha, hp⟩

end FlowAnalysis.Syntax
