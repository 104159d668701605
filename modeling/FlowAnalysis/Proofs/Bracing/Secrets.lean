import FlowAnalysis.Proofs.Bracing.Checks
import FlowAnalysis.Proofs.Secrets

/-!
# Secrets of flows in normal form

What stands among the credentials of a bubble stands there in the normal form, too, and what braces
and indentations are made up of belongs to no token.  So a token in the normal form is one of the
source.

## Main definitions

* `Flow.suspects` — the texts with tokens of several shapes.

## Main results

* `SecretShape.standsIn_of_substitute` — **braces make no tokens.**
* `Flow.Twins.thins_checkSecrets` — **the tokens of the normal form are tokens of the source.**
-/

namespace FlowAnalysis

open Syntax

/-! ### Texts that are looked at -/

/-- The known shapes of the tokens in a text. -/
def shapesIn (text : List Char) : List SecretShape := secretShapes.filter (·.occursIn text)

theorem secretProvider?_eq (text : List Char) :
    secretProvider? text = (shapesIn text).head?.map (·.provider) := by
  rw [secretProvider?, shapesIn, List.head?_filter]

namespace Flow

/-- The texts with tokens of several shapes, the first of which is reported. -/
def suspects (f : Flow) : List Tree :=
  f.openTexts.filter fun t => 1 < (shapesIn (f.source.chars t)).length

variable {s' s : Source} {registry : Registry} {config : Config} {named : Prop}

/-- The values that stand as credentials in the normal form are the twins of those that do so in
the source. -/
theorem Twins.forall₂_credentialSpans
    (h : Flow.Twins named (Flow.of s' registry config) (Flow.of s registry config)) :
    List.Forall₂ (fun span' span => ∃ v' v, span' = v'.span ∧ span = v.span ∧ Twin s' s v' v ∧
        s'.IsValue v' ∧ s.IsValue v)
      (Flow.of s' registry config).credentialSpans (Flow.of s registry config).credentialSpans := by
  refine List.rel_filterMap (fun c' c hc => ?_) h.constructions.mem
  obtain ⟨hc', hc, htwins⟩ := hc
  have hcredentials := htwins.rel_credentialsOf?
  generalize hx' : (Flow.of s' registry config).credentialsOf? c' = x',
    hx : (Flow.of s registry config).credentialsOf? c = x at hcredentials
  cases hcredentials with
  | none => exact .none
  | @some x' x htwin =>
    exact .some ⟨x'.2, x.2, rfl, rfl, htwin.2, isValue_of_credentialsOf? hc' hx',
      isValue_of_credentialsOf? hc hx⟩

/-- A node begins in credentials if its twin does. -/
theorem Twins.beginsIn_eq
    (h : Flow.Twins named (Flow.of s' registry config) (Flow.of s registry config)) {t' t : Tree}
    (ht : Twin s' s t' t) : beginsIn (Flow.of s' registry config).credentialSpans t' =
      beginsIn (Flow.of s registry config).credentialSpans t := by
  refine h.forall₂_credentialSpans.any_eq ?_
  rintro _ _ ⟨v', v, rfl, rfl, hv, hvalue', hvalue⟩
  have hrooted' := ht.bracing.rooted'
  have hrooted := ht.bracing.rooted
  rw [← Bool.decide_and, ← Bool.decide_and, decide_eq_decide]
  exact (Source.begins_iff hrooted' hvalue' ht.mem_nodes').trans
    ((Tree.lockstep.mem_nodes_iff hrooted'.laid hrooted.laid ht.mem hv.mem
      (hvalue'.laid hrooted') (hvalue.laid hrooted)).trans
      (Source.begins_iff hrooted hvalue ht.mem_nodes).symm)

/-- The texts that are looked at in the normal form are the twins of those in the source, but for
bodies whose blocks begin in credentials. -/
theorem Twins.thins_openTexts
    (h : Flow.Twins named (Flow.of s' registry config) (Flow.of s registry config)) :
    Thins False (Twin s' s) (Flow.of s' registry config).openTexts
      (Flow.of s registry config).openTexts := by
  refine h.bracing.twin_root.thins_walk
    (Search.follows_isAny (by decide) (fun t' t ht => ?_) False.elim)
  rw [h.beginsIn_eq ht, isText, isText, ht.isAny_eq]

end Flow

/-! ### Characters of braces -/

/-- A list that has no element of a stretch stands in front of it or behind it. -/
theorem infix_of_barred {α : Type} {token a r b : List α} (hne : r ≠ []) (hr : ∀ c ∈ r, c ∉ token)
    (h : token <:+: a ++ r ++ b) : token <:+: a ∨ token <:+: b := by
  -- One element in between is enough: the list does not reach beyond it.
  have hone : ∀ {x : α} {a b : List α}, x ∉ token → token <:+: a ++ x :: b →
      token <:+: a ∨ token <:+: b := by
    rintro x a b hx ⟨pre, post, heq⟩
    rcases List.append_eq_append_iff.1 heq with ⟨d, rfl, -⟩ | ⟨d, hd, hpost⟩
    · exact .inl ⟨pre, d, rfl⟩
    · rcases List.append_eq_append_iff.1 hd with ⟨e, rfl, rfl⟩ | ⟨e, rfl, rfl⟩
      · cases d with
        | nil => exact .inl (by rw [List.append_nil]; exact (List.suffix_append pre e).isInfix)
        | cons y d => simp [(List.cons.inj hpost).1] at hx
      · cases e with
        | nil =>
          cases token with
          | nil => exact .inl List.nil_infix
          | cons y token => simp [(List.cons.inj hpost).1] at hx
        | cons y e => exact .inr ⟨e, post, (List.cons.inj hpost).2.symm⟩
  induction r generalizing a with
  | nil => exact absurd rfl hne
  | cons x xs ih =>
    rw [List.append_assoc, List.cons_append] at h
    rcases hone (hr x List.mem_cons_self) h with h | h
    · exact .inl h
    · by_cases hxs : xs = []
      · exact .inr (by simpa [hxs] using h)
      · rcases ih (a := []) hxs (fun c hc => hr c (List.mem_cons_of_mem x hc)) h with h | h
        · exact .inl (List.infix_nil.1 h ▸ List.nil_infix)
        · exact .inr h

namespace Promotion

/-- The characters that promotions put into the text. -/
def marks : List Char := [' ', '\t', '\n', '\x7b', '\x7d']

theorem mem_marks_of_blank {c : Char} (h : c = ' ' ∨ c = '\t') : c ∈ marks := by
  rcases h with rfl | rfl <;> decide

end Promotion

namespace Syntax.Source

/-- What the edits of the normal form put into the text are braces and blanks. -/
theorem marks_of_mem_normalEdits {s : Source} (h : Rooted s.text s.root) {e : Text.Edit}
    (he : e ∈ s.normalEdits) :
    e.replacement ≠ [] ∧ ∀ c ∈ e.replacement, c ∈ Promotion.marks := by
  rw [normalEdits_eq_mergeSort, List.mem_map] at he
  obtain ⟨_, hpair, rfl⟩ := he
  obtain ⟨p, hp, hpair⟩ := List.mem_flatMap.1 ((List.mergeSort_perm _ later).mem_iff.1 hpair)
  have hindent : ∀ c ∈ p.indent, c = ' ' ∨ c = '\t' := by
    obtain ⟨owner, -, hpromotes⟩ := (forall₂_promotions h).exists_of_mem_right hp
    exact hpromotes.indent
  have hmarks : ∀ cs : List Char, (∀ c ∈ cs, c = ' ' ∨ c = '\t') → ∀ c ∈ cs, c ∈ Promotion.marks :=
    fun cs hcs c hc => Promotion.mem_marks_of_blank (hcs c hc)
  have hopen : ∀ c ∈ [' ', '\x7b', '\n'], c ∈ Promotion.marks := by simp [Promotion.marks]
  have hclose : ∀ c ∈ ['\n', '\x7d'], c ∈ Promotion.marks := by simp [Promotion.marks]
  rcases List.mem_pair.1 hpair with rfl | rfl
  · show p.opening.replacement ≠ [] ∧ _
    unfold Promotion.opening
    split
    · refine ⟨by simp, fun c hc => ?_⟩
      rcases List.mem_append.1 hc with hc | hc
      · exact hopen c hc
      · exact hmarks _ (blank_deeper hindent) c hc
    · refine ⟨by simp [Text.Edit.insertAt], fun c hc => hopen c ?_⟩
      exact List.mem_append_left ['\n'] hc
  · refine ⟨by simp [Promotion.closing, Text.Edit.insertAt], fun c hc => ?_⟩
    rcases List.mem_append.1 hc with hc | hc
    · rcases List.mem_append.1 hc with hc | hc
      · exact hclose c (List.mem_append_left ['\x7d'] hc)
      · exact hmarks _ hindent c hc
    · exact hclose c (List.mem_cons_of_mem '\n' hc)

end Syntax.Source

namespace SecretShape

variable {shape : SecretShape}

/-- No token has a character that a promotion puts into the text. -/
theorem not_mem_marks_of_mem_classes (hshape : shape ∈ secretShapes) {p : CharClass}
    (hp : p ∈ shape.classes) {c : Char} (hc : p c) : c ∉ Promotion.marks := by
  have hnone : (secretShapes.all fun shape => shape.classes.all fun p =>
      Promotion.marks.all fun c => !p c) = true := by decide +kernel
  simp only [List.all_eq_true, Bool.not_eq_true'] at hnone
  intro hmark
  simp [hnone shape hshape p hp c hmark] at hc

theorem StandsIn.of_barred (hshape : shape ∈ secretShapes) {a r b : List Char} (hne : r ≠ [])
    (hr : ∀ c ∈ r, c ∈ Promotion.marks) (h : shape.StandsIn (a ++ r ++ b)) :
    shape.StandsIn a ∨ shape.StandsIn b := by
  obtain ⟨token, htoken, hclasses⟩ := h
  have hbarred : ∀ c ∈ r, c ∉ token := by
    intro c hc hmem
    obtain ⟨p, hp, hpc⟩ := hclasses.exists_of_mem_right hmem
    exact not_mem_marks_of_mem_classes hshape hp hpc (hr c hc)
  rcases infix_of_barred hne hbarred htoken with h | h
  · exact .inl ⟨token, h, hclasses⟩
  · exact .inr ⟨token, h, hclasses⟩

/-- **Braces make no tokens.** -/
theorem standsIn_of_substitute (hshape : shape ∈ secretShapes) {text : List Char} {lo : Nat}
    {es : List Text.Edit} (hes : ∀ e ∈ es, lo ≤ e.span.stop ∧ e.replacement ≠ [] ∧
      ∀ c ∈ e.replacement, c ∈ Promotion.marks) {pos : Nat} (hpos : lo ≤ pos)
    (h : shape.StandsIn (Text.Edit.substitute text pos es)) : shape.StandsIn (text.drop lo) := by
  have hsuffix : ∀ pos, lo ≤ pos → text.drop pos <:+ text.drop lo := fun pos hpos => by
    rw [← Nat.add_sub_cancel' hpos, ← List.drop_drop]
    exact List.drop_suffix _ _
  induction es generalizing pos with
  | nil => exact h.mono (hsuffix pos hpos).isInfix
  | cons e es ih =>
    obtain ⟨hstop, hne, hinserts⟩ := hes e List.mem_cons_self
    rcases StandsIn.of_barred hshape hne hinserts h with h | h
    · rw [List.drop_take] at h
      exact h.mono ((List.take_prefix _ _).isInfix.trans (hsuffix pos hpos).isInfix)
    · exact ih (fun f hf => hes f (List.mem_cons_of_mem e hf)) hstop h

end SecretShape

/-- A token in the edited text of a node stands in its text. -/
theorem Syntax.Source.standsIn_of_editedChars {s : Source} (h : Rooted s.text s.root)
    {shape : SecretShape} (hshape : shape ∈ secretShapes) {t : Tree}
    (hstands : shape.StandsIn (s.editedChars t)) : shape.StandsIn (s.chars t) := by
  obtain ⟨-, -, -, -, hordered⟩ := exists_pieces_of_rooted h
  have hedits : ∀ e ∈ s.normalEdits.reverse.filter fun e =>
      decide (t.start < e.span.start) && decide (e.span.start < t.stop),
      t.start ≤ e.span.stop ∧ e.replacement ≠ [] ∧
        ∀ c ∈ e.replacement, c ∈ Promotion.marks := by
    intro e he
    obtain ⟨hmem, hinside⟩ := List.mem_filter.1 he
    have hspan := hordered.span_le hmem
    simp only [Bool.and_eq_true, decide_eq_true_eq] at hinside
    exact ⟨Nat.le_trans (Nat.le_of_lt hinside.1) hspan,
      marks_of_mem_normalEdits h (List.mem_reverse.1 hmem)⟩
  have hchars : s.chars t = (s.text.toList.take t.stop).drop t.start := sliceOf_eq _ _ _
  rw [hchars]
  exact SecretShape.standsIn_of_substitute hshape hedits (Nat.le_refl _) hstands

/-- A token in a text of the normal form stands in its twin. -/
theorem Twin.standsIn {s' s : Source} {t' t : Tree} (h : Twin s' s t' t) (ht : Flow.isText t)
    {shape : SecretShape} (hshape : shape ∈ secretShapes) (hstands : shape.StandsIn (s'.chars t')) :
    shape.StandsIn (s.chars t) := by
  obtain ⟨k, hk, hlabel⟩ := Tree.isAny_iff.1 ht
  rcases List.mem_pair.1 hk with rfl | rfl
  · rwa [h.chars_of_is (Tree.is_iff.2 hlabel) (.inr rfl)] at hstands
  · rw [h.keeps.template (Tree.is_iff.2 hlabel)] at hstands
    exact Source.standsIn_of_editedChars h.bracing.rooted hshape hstands

theorem Twin.sublist_shapesIn {s' s : Source} {t' t : Tree} (h : Twin s' s t' t)
    (ht : Flow.isText t) : (shapesIn (s'.chars t')).Sublist (shapesIn (s.chars t)) := by
  have hfilter : shapesIn (s'.chars t') =
      (shapesIn (s.chars t)).filter (·.occursIn (s'.chars t')) := by
    rw [shapesIn, shapesIn, List.filter_filter]
    refine List.filter_congr fun shape hshape => ?_
    rw [Bool.eq_iff_iff, Bool.and_eq_true, SecretShape.occursIn_iff, SecretShape.occursIn_iff]
    exact (and_iff_left_of_imp (h.standsIn ht hshape)).symm
  rw [hfilter]
  exact List.filter_sublist

/-! ### The rule -/

namespace Flow

variable {s' s : Source} {registry : Registry} {config : Config} {named : Prop}

theorem findings_checkSecrets (f : Flow) : f.checkSecrets.map (·.finding) =
    f.openTexts.flatMap fun t =>
      ((secretProvider? (f.source.chars t)).map Finding.hardcodedSecret).toList := by
  rw [checkSecrets, List.map_filterMap, List.filterMap_eq_flatMap_toList]
  refine List.flatMap_congr fun t _ => ?_
  rw [Option.map_map]
  rfl

/-- **The tokens of the normal form are tokens of the source.** -/
theorem Twins.thins_checkSecrets
    (h : Flow.Twins named (Flow.of s' registry config) (Flow.of s registry config)) :
    Thins False (Finding.Agrees (∀ t ∈ (Flow.of s registry config).suspects, t.isVerbatim))
      ((Flow.of s' registry config).checkSecrets.map (·.finding))
      ((Flow.of s registry config).checkSecrets.map (·.finding)) := by
  obtain ⟨texts, htexts, hsub, -⟩ := h.thins_openTexts
  rw [findings_checkSecrets, findings_checkSecrets]
  have htwins := htexts.imp_of_mem (T := fun t' t => Twin s' s t' t ∧
    t ∈ (Flow.of s registry config).openTexts) fun _ t ht htwin => ⟨htwin, hsub.subset ht⟩
  refine (Thins.flatMap_forall₂ htwins fun t' t ht => ?_).mono (hsub.flatMap _)
  obtain ⟨htwin, hmem⟩ := ht
  change Thins False _ ((secretProvider? (s'.chars t')).map _).toList
    ((secretProvider? (s.chars t)).map _).toList
  have hsub := htwin.sublist_shapesIn (List.mem_filter.1 hmem).2
  rw [secretProvider?_eq, secretProvider?_eq]
  cases hshapes' : shapesIn (s'.chars t') with
  | nil => exact .nil False.elim
  | cons shape' rest' =>
    rw [hshapes'] at hsub
    cases hshapes : shapesIn (s.chars t) with
    | nil => simp [hshapes] at hsub
    | cons shape rest =>
      refine .of_forall₂ (.cons ⟨rfl, fun hverbatim => ?_⟩ .nil)
      -- Where there is one shape it is the first one, and elsewhere the text is the same.
      have hfirst : shape' = shape := by
        by_cases hone : rest = []
        · subst hone
          rw [hshapes] at hsub
          exact List.mem_singleton.1 (hsub.subset List.mem_cons_self)
        · have hseveral : t ∈ (Flow.of s registry config).suspects := by
            refine List.mem_filter.2 ⟨hmem, decide_eq_true ?_⟩
            show 1 < (shapesIn (s.chars t)).length
            rw [hshapes, List.length_cons]
            exact Nat.succ_lt_succ (List.length_pos_iff.2 hone)
          rw [htwin.chars_of_isVerbatim (hverbatim t hseveral), hshapes] at hshapes'
          exact (List.cons.inj hshapes').1.symm
      rw [hfirst]

end Flow

end FlowAnalysis
