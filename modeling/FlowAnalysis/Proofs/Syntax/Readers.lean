import FlowAnalysis.Proofs.Syntax.Laid
import FlowAnalysis.Proofs.Syntax.Lexemes

/-!
# Readers lay out what they read

Every combinator of the reader keeps the trees read so far laid out, as long as no defect is read.
What a reader does to the children of the node under construction is said by its reach: most readers
only add children, but those that read the rest of a node take the newest child into it, so they
must have one that they may take.

## Main definitions

* `Reach` — what a reader does to the newest children.
* `State.Leads` — one state is reached from another by laying out.
* `Reader.Lays` — a reader that leads from every state to the states that it answers.

## Main results

* `Quiet.flush` — once the comments have been read, none stands next.
* `Leads.trans` — one reader after another.
* `leads_node`, `leads_wrap` — nodes are made up of what is laid out.
-/

namespace FlowAnalysis.Syntax

open Lexeme

/-! ### Children that belong to a construct -/

/-- Some of the trees is neither a comment nor a defect. -/
def Solid (ts : List Tree) : Prop := ∃ t ∈ ts, t.isExtra = false

@[simp] theorem not_solid_nil : ¬ Solid [] := nofun

theorem solid_cons {t : Tree} {ts : List Tree} :
    Solid (t :: ts) ↔ t.isExtra = false ∨ Solid ts := by
  simp [Solid]

theorem Solid.append_left {ts us : List Tree} (h : Solid us) : Solid (ts ++ us) := by
  obtain ⟨t, ht, hs⟩ := h
  exact ⟨t, List.mem_append_right ts ht, hs⟩

theorem Tree.isExtra_withRole (t : Tree) (r : Option Role) :
    (t.withRole r).isExtra = t.isExtra := rfl

theorem isExtra_eq (t : Tree) :
    (t.isAny [.comment, .htmlComment] || decide (t.label = .error)) = t.isExtra := rfl

/-- A role is given to one of the children that belong to a construct. -/
theorem Solid.mark {role : Role} {ts us : List Tree} (h : Solid ts) :
    Reader.mark role (ts ++ us) = Reader.mark role ts ++ us := by
  induction ts with
  | nil => exact absurd h not_solid_nil
  | cons t ts ih =>
    rw [List.cons_append, Reader.mark, Reader.mark, isExtra_eq]
    split
    · next ht =>
      rw [solid_cons] at h
      rw [ih (h.resolve_left (by simp [ht]))]
      rfl
    · rfl

theorem solid_mark {role : Role} {ts : List Tree} : Solid (Reader.mark role ts) ↔ Solid ts := by
  induction ts with
  | nil => rfl
  | cons t ts ih =>
    rw [Reader.mark, isExtra_eq]
    split <;> simp [solid_cons, ih, Tree.isExtra_withRole]

theorem Solid.exists_role {role : Role} {ts : List Tree} (h : Solid ts) :
    ∃ t ∈ Reader.mark role ts, t.role = some role := by
  induction ts with
  | nil => exact absurd h not_solid_nil
  | cons t ts ih =>
    rw [Reader.mark, isExtra_eq]
    split
    · next ht =>
      rw [solid_cons] at h
      obtain ⟨u, hu, hrole⟩ := ih (h.resolve_left (by simp [ht]))
      exact ⟨u, List.mem_cons_of_mem t hu, hrole⟩
    · exact ⟨t.withRole role, List.mem_cons_self, rfl⟩

theorem all_straight_mark {role : Role} {ts : List Tree} :
    (Reader.mark role ts).all Tree.straight = ts.all Tree.straight := by
  induction ts with
  | nil => rfl
  | cons t ts ih =>
    rw [Reader.mark]
    split <;> simp [ih]

/-! ### Leaves -/

theorem laid_leafOf {l : Label} {i j : Nat} (h : i < j) (hl : Formed l []) :
    (State.leafOf l i j).Laid := by
  rw [State.leafOf, Tree.Laid]
  refine ⟨h, hl, ?_, by simp, by simp⟩
  rw [laidFrom_nil]
  exact Nat.le_of_lt h

theorem firstDefect?_error {i j : Nat} : (State.leafOf .error i j).firstDefect? ≠ none := by
  simp [State.leafOf, Tree.firstDefect?_node, Tree.isDefect]

theorem firstDefect?_missing {what : String} {i j : Nat} :
    (State.leafOf (.missing what) i j).firstDefect? ≠ none := by
  simp [State.leafOf, Tree.firstDefect?_node, Tree.isDefect]

/-! ### Reaching a state -/

/-- What a reader does to the newest children of the node under construction. -/
inductive Reach
  /-- It adds children, one of which belongs to a construct. -/
  | adds
  /-- It leaves the children alone and may add more. -/
  | keeps
  /-- It may take the newest of some children into a node, if one of them belongs to a construct. -/
  | grows
  deriving DecidableEq

/-- A state is reached from another one by laying out, as long as no defect is read.  If `straight`
holds, no branch and no loop is read. -/
structure State.Leads (reach : Reach) (straight : Bool) (s t : State) : Prop where
  text : t.text = s.text
  le : s.pos ≤ t.pos
  clean : Clean t.out → Clean s.out
  /-- The children below some newest ones stay as they are, and all are laid out if they were. -/
  grown : ∀ {ys base}, s.out = ys ++ base → (reach = .grows → Solid ys) →
    (straight → ys.all Tree.straight) →
    ∃ zs, t.out = zs ++ base ∧ (reach = .adds ∨ Solid ys → Solid zs) ∧
      (straight → zs.all Tree.straight) ∧
      (Clean t.out → ∀ {lo}, LaidFrom lo s.out.reverse s.pos → LaidFrom lo t.out.reverse t.pos)

namespace State.Leads

variable {reach k₁ k₂ : Reach} {straight : Bool} {s t u : State}

theorem refl (s : State) : s.Leads .keeps straight s where
  text := rfl
  le := Nat.le_refl _
  clean := id
  grown := fun h _ hst => ⟨_, h, fun hs => hs.resolve_left nofun, hst, fun _ _ => id⟩

/-- One reader after another.  The second may take what the first has added. -/
theorem trans (h₁ : s.Leads k₁ straight t) (h₂ : t.Leads k₂ straight u)
    (hk₁ : k₁ = .grows → reach = .grows) (hk₂ : k₂ = .grows → k₁ = .adds ∨ reach = .grows)
    (hk : reach = .adds → k₁ = .adds ∨ k₂ = .adds) : s.Leads reach straight u where
  text := h₂.text.trans h₁.text
  le := Nat.le_trans h₁.le h₂.le
  clean := fun h => h₁.clean (h₂.clean h)
  grown := by
    intro ys base hout hsolid hst
    obtain ⟨zs, hzs, hzsolid, hzst, hzlaid⟩ := h₁.grown hout (fun h => hsolid (hk₁ h)) hst
    have hpre : k₂ = .grows → Solid zs := by
      intro h
      rcases hk₂ h with h | h
      · exact hzsolid (.inl h)
      · exact hzsolid (.inr (hsolid h))
    obtain ⟨ws, hws, hwsolid, hwst, hwlaid⟩ := h₂.grown hzs hpre hzst
    refine ⟨ws, hws, ?_, hwst, fun hc _ hl => hwlaid hc (hzlaid (h₂.clean hc) hl)⟩
    rintro (h | h)
    · rcases hk h with h | h
      · exact hwsolid (.inr (hzsolid (.inl h)))
      · exact hwsolid (.inl h)
    · exact hwsolid (.inr (hzsolid (.inr h)))

theorem keeps (h : s.Leads .adds straight t) : s.Leads .keeps straight t where
  text := h.text
  le := h.le
  clean := h.clean
  grown := by
    intro ys base hout _ hst
    obtain ⟨zs, hzs, hsolid, hzst, hlaid⟩ := h.grown hout nofun hst
    exact ⟨zs, hzs, fun _ => hsolid (.inl rfl), hzst, hlaid⟩

theorem grows (h : s.Leads .keeps straight t) : s.Leads .grows straight t where
  text := h.text
  le := h.le
  clean := h.clean
  grown := by
    intro ys base hout _ hst
    obtain ⟨zs, hzs, hsolid, hzst, hlaid⟩ := h.grown hout nofun hst
    exact ⟨zs, hzs, fun hs => hsolid (.inr (hs.resolve_left nofun)), hzst, hlaid⟩

/-- A reader that leaves the children alone adds its own in front of them. -/
theorem added (h : s.Leads reach straight t) (hk : reach ≠ .grows) :
    ∃ zs, t.out = zs ++ s.out ∧ (reach = .adds → Solid zs) ∧ (straight → zs.all Tree.straight) ∧
      (Clean t.out → ∀ {lo}, LaidFrom lo s.out.reverse s.pos → LaidFrom lo t.out.reverse t.pos) := by
  obtain ⟨zs, hzs, hsolid, hst, hlaid⟩ :=
    h.grown (List.nil_append s.out).symm (fun h => absurd h hk) (fun _ => rfl)
  exact ⟨zs, hzs, fun h => hsolid (.inl h), hst, hlaid⟩

theorem laid_of_keeps (h : s.Leads .keeps straight t) (hc : Clean t.out) {lo : Nat}
    (hl : LaidFrom lo s.out.reverse s.pos) : LaidFrom lo t.out.reverse t.pos := by
  obtain ⟨_, _, _, _, hlaid⟩ := h.added nofun
  exact hlaid hc hl

end State.Leads

/-- Layout depends on the text, the offset and the children only. -/
theorem State.leads_congr {reach : Reach} {straight : Bool} {s t s' t' : State}
    (h : s.Leads reach straight t) (hs : s'.text = s.text ∧ s'.pos = s.pos ∧ s'.out = s.out)
    (ht : t'.text = t.text ∧ t'.pos = t.pos ∧ t'.out = t.out) : s'.Leads reach straight t' where
  text := by rw [ht.1, hs.1, h.text]
  le := by rw [ht.2.1, hs.2.1]; exact h.le
  clean := by rw [ht.2.2, hs.2.2]; exact h.clean
  grown := by rw [ht.2.2, hs.2.2, ht.2.1, hs.2.1]; exact h.grown

/-! ### Comments between tokens -/

namespace State

/-- What stands between tokens is a stretch to pass over or a comment. -/
theorem extra?_cases {s : State} {t : Tree} (h : s.extra? = some t) :
    ∃ l j, t = leafOf l (skipBlanks s.text s.pos) j ∧
      (l = .error ∨ (l = .rule .comment ∨ l = .rule .htmlComment) ∧
        skipBlanks s.text s.pos < j ∧ j ≤ s.text.size) := by
  unfold extra? at h
  simp only at h
  split at h
  · next span hspan =>
    obtain ⟨p, _, hp⟩ := List.exists_of_findSome?_eq_some hspan
    have hstart : span.start = skipBlanks s.text s.pos := by
      split at hp
      · split at hp
        · next hs =>
          simp only [Option.some.injEq] at hp
          exact hp ▸ hs
        · simp at hp
      · simp at hp
    simp only [Option.some.injEq] at h
    exact ⟨.error, span.stop, by rw [← h, hstart], .inl rfl⟩
  · obtain ⟨⟨k, j⟩, hkj, rfl⟩ := Option.map_eq_some_iff.1 h
    refine ⟨.rule k, j, rfl, .inr ?_⟩
    unfold anyCommentEnd? at hkj
    split at hkj
    · next hj =>
      obtain ⟨rfl, rfl⟩ : Kind.comment = k ∧ _ = j := by simpa using hkj
      exact ⟨.inl rfl, commentEnd?_bounds hj⟩
    · split at hkj
      · obtain ⟨i, hi, hik⟩ := Option.map_eq_some_iff.1 hkj
        obtain ⟨rfl, rfl⟩ : Kind.htmlComment = k ∧ i = j := by simpa using hik
        exact ⟨.inr rfl, markupCommentEnd?_bounds hi⟩
      · simp at hkj

/-- What stands between tokens contains no branch and no loop. -/
theorem straight_extra? {s : State} {t : Tree} (h : s.extra? = some t) : t.straight := by
  obtain ⟨l, j, rfl, rfl | ⟨rfl | rfl, _⟩⟩ := extra?_cases h <;> rfl

theorem leads_afterExtra {straight : Bool} {s : State} {t : Tree} (h : s.extra? = some t)
    (hlt : s.pos < t.stop) : s.Leads .keeps straight (s.afterExtra t) where
  text := rfl
  le := Nat.le_of_lt hlt
  clean := fun hc => (clean_cons.1 hc).2
  grown := by
    intro ys base hout _ hst
    refine ⟨t :: ys, by rw [afterExtra, hout]; rfl, ?_, ?_, ?_⟩
    · intro hs
      exact solid_cons.2 (.inr (hs.resolve_left nofun))
    · intro hs
      rw [List.all_cons, straight_extra? h, hst hs]
      rfl
    · intro hc lo hl
      rw [afterExtra, clean_cons] at hc
      rw [afterExtra]
      obtain ⟨l, j, rfl, hcases⟩ := extra?_cases h
      rw [List.reverse_cons, laidFrom_concat]
      refine ⟨hl.mono (Nat.le_refl _) (le_skipBlanks s.text s.pos), ?_, Nat.le_refl _⟩
      rcases hcases with rfl | ⟨rfl | rfl, hj, _⟩
      · exact absurd hc.1 firstDefect?_error
      · exact laid_leafOf hj (formed_nil rfl)
      · exact laid_leafOf hj (formed_nil rfl)

theorem leads_flushUpTo {straight : Bool} : ∀ (n : Nat) (s : State),
    s.Leads .keeps straight (flushUpTo n s) := by
  intro n
  induction n with
  | zero => exact fun s => .refl s
  | succ n ih =>
    intro s
    rw [flushUpTo]
    split
    · next t ht =>
      split
      · next hlt => exact (leads_afterExtra ht hlt).trans (ih _) nofun nofun nofun
      · exact .refl s
    · exact .refl s

theorem leads_flush {straight : Bool} (s : State) : s.Leads .keeps straight s.flush :=
  leads_flushUpTo _ s

/-- No comment stands next; a stretch to pass over may. -/
def Quiet (s : State) : Prop := ∀ t, s.extra? = some t → s.pos < t.stop → t.label = .error

theorem quiet_flushUpTo : ∀ {n : Nat} {s : State}, s.text.size < s.pos + n →
    Clean (flushUpTo n s).out → (flushUpTo n s).Quiet := by
  intro n
  induction n with
  | zero =>
    intro s hsize _ t ht hlt
    rw [flushUpTo] at ht hlt
    obtain ⟨l, j, rfl, rfl | ⟨_, _, hj⟩⟩ := extra?_cases ht
    · rfl
    · have : s.pos < j := hlt
      omega
  | succ n ih =>
    intro s hsize hc
    rw [flushUpTo] at hc ⊢
    split at hc
    · next t ht =>
      split at hc
      · next hlt =>
        simp only [hlt, if_true]
        apply ih _ hc
        rw [afterExtra]
        simp only
        omega
      · next hlt =>
        simp only [hlt, if_false]
        intro t' ht' hlt'
        rw [ht] at ht'
        simp only [Option.some.injEq] at ht'
        subst ht'
        exact absurd hlt' hlt
    · next hnone =>
      intro t ht
      rw [hnone] at ht
      simp at ht

theorem quiet_flush {s : State} (h : Clean s.flush.out) : s.flush.Quiet :=
  quiet_flushUpTo (by omega) h

/-- Once the comments have been read, none stands next. -/
theorem Quiet.flush {s : State} (h : s.Quiet) (hc : Clean s.flush.out) : s.flush = s := by
  rw [State.flush, flushUpTo] at hc ⊢
  split at hc
  · next t ht =>
    split at hc
    · next hlt =>
      have hl : (s.afterExtra t).Leads .keeps false _ := leads_flushUpTo s.text.size _
      have hc' := hl.clean hc
      rw [afterExtra, clean_cons] at hc'
      have he := h t ht hlt
      obtain ⟨l, j, rfl, _⟩ := extra?_cases ht
      obtain rfl : l = .error := he
      exact absurd hc'.1 firstDefect?_error
    · next hlt => simp only [hlt, if_false]
  · rfl

end State

/-! ### Tokens -/

/-- Whether a label may stand at a node without children that belongs to a construct. -/
def Label.leafy : Label → Bool
  | .rule k => k.bare
  | .token _ => true
  | _ => false

theorem formed_leafy {l : Label} (h : l.leafy) : Formed l [] := by
  cases l with
  | rule k => exact formed_nil ((Kind.bare_iff k).1 h).1
  | token text => rfl
  | missing what => simp [Label.leafy] at h
  | error => simp [Label.leafy] at h

theorem isExtra_leafOf {l : Label} (h : l.leafy) {i j : Nat} :
    (State.leafOf l i j).isExtra = false := by
  cases l with
  | rule k =>
    obtain ⟨_, hc, hh⟩ := (Kind.bare_iff k).1 h
    simp [State.leafOf, Tree.isExtra, Tree.isAny, Tree.is, hc, hh]
  | token text => rfl
  | missing what => rfl
  | error => simp [Label.leafy] at h

theorem straight_leafOf {l : Label} (h : l.leafy) {i j : Nat} :
    (State.leafOf l i j).straight := by
  cases l with
  | rule k =>
    have := ((Kind.bare_iff k).1 h).1
    simp [State.leafOf, Tree.straight, Tree.isOwner, this]
  | token text => rfl
  | missing what => rfl
  | error => rfl

namespace State

/-- A leaf is laid out behind what has been read. -/
theorem leads_leaf {straight : Bool} {s t : State} {l : Label} {i j : Nat} (hl : l.leafy)
    (hi : s.pos ≤ i) (hij : i < j) (htext : t.text = s.text) (hpos : t.pos = j)
    (hout : t.out = leafOf l i j :: s.out) : s.Leads .adds straight t where
  text := htext
  le := by omega
  clean := fun hc => (clean_cons.1 (hout ▸ hc)).2
  grown := by
    intro ys base hs _ hst
    refine ⟨leafOf l i j :: ys, by rw [hout, hs]; rfl, fun _ => ?_, fun h => ?_, ?_⟩
    · exact solid_cons.2 (.inl (isExtra_leafOf hl))
    · rw [List.all_cons, straight_leafOf hl, hst h]
      rfl
    · intro _ lo hlo
      rw [hout, List.reverse_cons, laidFrom_concat]
      exact ⟨hlo.mono (Nat.le_refl _) hi, laid_leafOf hij (formed_leafy hl), Nat.le_of_eq hpos.symm⟩

/-- A token that a patch supplies is a defect. -/
theorem leads_missing {straight : Bool} {s t : State} {what : String} {i j : Nat}
    (htext : t.text = s.text) (hpos : t.pos = s.pos)
    (hout : t.out = leafOf (.missing what) i j :: s.out) : s.Leads .adds straight t where
  text := htext
  le := Nat.le_of_eq hpos.symm
  clean := fun hc => (clean_cons.1 (hout ▸ hc)).2
  grown := by
    intro ys base hs _ hst
    refine ⟨leafOf (.missing what) i j :: ys, by rw [hout, hs]; rfl, fun _ => ?_, fun h => ?_, ?_⟩
    · exact solid_cons.2 (.inl rfl)
    · rw [List.all_cons, hst h]
      rfl
    · exact fun hc => absurd (clean_cons.1 (hout ▸ hc)).1 firstDefect?_missing

theorem leads_push {straight fresh : Bool} {s : State} {l : Label} {stop : Nat} {a : Unit}
    {t : State} (hl : l.leafy) (hlt : s.next < stop) (h : Reader.push l fresh stop s = .done a t) :
    s.Leads .adds straight t := by
  simp only [Reader.push, Reply.done.injEq, true_and] at h
  subst h
  exact (leads_flush s).trans
    (leads_leaf hl (le_skipBlanks _ _) hlt rfl rfl rfl) nofun nofun (fun _ => .inr rfl)

/-! ### Nodes -/

/-- A node over children that are laid out is laid out. -/
theorem laid_assemble {k : Kind} {ts : List Tree} {lo pos : Nat} (hne : ts ≠ [])
    (hts : LaidFrom lo ts.reverse pos) (hf : Formed (.rule k) ts.reverse) :
    (Reader.assemble k ts pos).Laid ∧ lo ≤ (Reader.assemble k ts pos).start ∧
      (Reader.assemble k ts pos).stop ≤ pos := by
  obtain ⟨last, rest, rfl⟩ := List.exists_cons_of_ne_nil hne
  obtain ⟨first, hfirst⟩ : ∃ first, (last :: rest).getLast? = some first :=
    ⟨_, List.getLast?_eq_some_getLast hne⟩
  have hhead : (last :: rest).reverse.head? = some first := by
    rw [List.head?_reverse, hfirst]
  have hlast : (last :: rest).reverse.getLast? = some last := by
    rw [List.getLast?_reverse]
    rfl
  have htight := hts.tight hhead hlast
  have hmem : ∀ t ∈ (last :: rest).reverse, t.Laid ∧ lo ≤ t.start ∧ t.stop ≤ pos :=
    fun t ht => hts.laid_of_mem ht
  have hlt : first.start < last.stop := by
    have h1 := (htight.laid_of_mem (List.mem_of_mem_head? hhead)).1.lt
    have h2 := (htight.laid_of_mem (List.mem_of_mem_head? hhead)).2.2
    omega
  have heq : Reader.assemble k (last :: rest) pos =
      .node (.rule k) none ⟨first.start, last.stop⟩ (last :: rest).reverse := by
    simp only [Reader.assemble, hfirst, List.head?_cons, Option.map_some, Option.getD_some]
  rw [heq]
  refine ⟨?_, (hmem first (List.mem_of_mem_head? hhead)).2.1,
    (hmem last (List.mem_of_getLast? hlast)).2.2⟩
  rw [Tree.Laid]
  refine ⟨hlt, hf, htight, ?_, ?_⟩
  · intro t ht
    rw [hhead] at ht
    simp only [Option.some.injEq] at ht
    rw [ht]
  · intro t ht
    rw [hlast] at ht
    simp only [Option.some.injEq] at ht
    rw [ht]

theorem firstDefect?_assemble {k : Kind} {ts : List Tree} {pos : Nat} :
    (Reader.assemble k ts pos).firstDefect? = none ↔ Clean ts := by
  simp [Reader.assemble, Tree.firstDefect?_node, Tree.isDefect]

theorem isExtra_assemble {k : Kind} (hc : k ≠ .comment) (hh : k ≠ .htmlComment) {ts : List Tree}
    {pos : Nat} : (Reader.assemble k ts pos).isExtra = false := by
  simp [Reader.assemble, Tree.isExtra, Tree.isAny, Tree.is, hc, hh]

theorem straight_assemble {k : Kind} (hk : k.owner = false) {ts : List Tree} {pos : Nat}
    (hts : ts.all Tree.straight) : (Reader.assemble k ts pos).straight := by
  simpa [Reader.assemble, Tree.straight, Tree.isOwner, hk] using hts

/-- A node of a kind other than that of a comment over children that are laid out. -/
theorem leads_node {straight straight' : Bool} {s v u w : State} {k : Kind}
    (hu : v.Leads .keeps straight' u) (hv : v.text = s.text ∧ v.pos = s.pos ∧ v.out = [])
    (hw : w.text = u.text ∧ w.pos = u.pos ∧ w.out = Reader.assemble k u.out u.pos :: s.out)
    (hne : u.out ≠ []) (hk : k ≠ .comment ∧ k ≠ .htmlComment)
    (hf : Clean u.out → Clean s.out → Formed (.rule k) u.out.reverse)
    (hst : straight → (Reader.assemble k u.out u.pos).straight) : s.Leads .adds straight w where
  text := by rw [hw.1, hu.text, hv.1]
  le := by
    have := hu.le
    rw [hw.2.1, ← hv.2.1]
    exact this
  clean := fun hc => (clean_cons.1 (hw.2.2 ▸ hc)).2
  grown := by
    intro ys base hs _ hys
    refine ⟨Reader.assemble k u.out u.pos :: ys, by rw [hw.2.2, hs]; rfl, fun _ => ?_, fun h => ?_, ?_⟩
    · exact solid_cons.2 (.inl (isExtra_assemble hk.1 hk.2))
    · rw [List.all_cons, hst h, hys h]
      rfl
    · intro hc lo hlo
      rw [hw.2.2, clean_cons, firstDefect?_assemble] at hc
      have hts : LaidFrom s.pos u.out.reverse u.pos := by
        apply hu.laid_of_keeps hc.1
        simp [hv.2.2, hv.2.1]
      obtain ⟨hlaid, hstart, hstop⟩ := laid_assemble hne hts (hf hc.1 hc.2)
      rw [hw.2.2, hw.2.1, List.reverse_cons, laidFrom_concat]
      exact ⟨hlo.mono (Nat.le_refl _) hstart, hlaid, hstop⟩

/-- A node whose first child has been read before it. -/
theorem leads_wrap {straight straight' : Bool} {s v u w : State} {k : Kind} {role : Option Role}
    {first : Tree} {rest : List Tree} (hs : s.out = first :: rest)
    (hu : v.Leads .keeps straight' u) (hle : straight → straight')
    (hv : v.text = s.text ∧ v.pos = s.pos ∧ v.out = [first.withRole role])
    (hw : w.text = u.text ∧ w.pos = u.pos ∧ w.out = Reader.assemble k u.out u.pos :: rest)
    (hk : k.bare) (hf : ∀ ts : List Tree, (straight → first.straight) →
      (straight' → ts.all Tree.straight) → Formed (.rule k) (first.withRole role :: ts)) :
    s.Leads .grows straight w where
  text := by rw [hw.1, hu.text, hv.1]
  le := by
    have := hu.le
    rw [hw.2.1, ← hv.2.1]
    exact this
  clean := by
    intro hc
    rw [hw.2.2, clean_cons, firstDefect?_assemble] at hc
    have hfirst := hu.clean hc.1
    rw [hv.2.2, clean_cons, Tree.firstDefect?_withRole] at hfirst
    rw [hs, clean_cons]
    exact ⟨hfirst.1, hc.2⟩
  grown := by
    intro ys base hout hsolid hys
    obtain ⟨howner, hcomment, hhtml⟩ := (Kind.bare_iff k).1 hk
    -- The first child is one of those that the reader may take.
    obtain ⟨ys', rfl, hrest⟩ : ∃ ys', ys = first :: ys' ∧ rest = ys' ++ base := by
      rw [hs] at hout
      cases ys with
      | nil => exact absurd (hsolid rfl) not_solid_nil
      | cons y ys' =>
        obtain ⟨rfl, rfl⟩ := List.cons.inj hout
        exact ⟨ys', rfl, rfl⟩
    obtain ⟨zs, hzs, _, hzst, _⟩ := hu.added nofun
    have hfirst : straight → first.straight := fun h => (Bool.and_eq_true_iff.1 (hys h)).1
    have hout : u.out.reverse = first.withRole role :: zs.reverse := by simp [hzs, hv.2.2]
    have hust : straight → u.out.all Tree.straight := by
      intro h
      rw [hzs, hv.2.2, List.all_append, hzst (hle h)]
      simp [hfirst h]
    refine ⟨Reader.assemble k u.out u.pos :: ys', by rw [hw.2.2, hrest]; rfl, fun _ => ?_, ?_, ?_⟩
    · exact solid_cons.2 (.inl (isExtra_assemble hcomment hhtml))
    · intro h
      rw [List.all_cons, straight_assemble howner (hust h), Bool.true_and]
      exact (Bool.and_eq_true_iff.1 (hys h)).2
    · intro hc lo hlo
      rw [hw.2.2, clean_cons, firstDefect?_assemble] at hc
      rw [hs, List.reverse_cons, laidFrom_concat] at hlo
      have hts : LaidFrom first.start u.out.reverse u.pos := by
        apply hu.laid_of_keeps hc.1
        simpa [hv.2.2, hv.2.1] using hlo.2
      have hne : u.out ≠ [] := by simp [hzs, hv.2.2]
      have hformed := hf zs.reverse hfirst fun h => by rw [List.all_reverse]; exact hzst h
      obtain ⟨hlaid, hstart, hstop⟩ := laid_assemble hne hts (hout ▸ hformed)
      rw [hw.2.2, hw.2.1, List.reverse_cons, laidFrom_concat]
      exact ⟨hlo.1.mono (Nat.le_refl _) hstart, hlaid, hstop⟩

end State

end FlowAnalysis.Syntax
