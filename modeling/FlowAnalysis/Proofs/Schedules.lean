import FlowAnalysis.Lint.Schedule
import FlowAnalysis.Proofs.Literals.Strings
import FlowAnalysis.Proofs.Text.Fields
import Mathlib.Computability.Language

/-!
# Schedules

The fields of a schedule have a grammar of lists, steps and ranges, and the check of a field accepts
exactly its words.  What is checked is the schedule as it is read; a string may stand for another
text than is read, but it falls into as many fields, and the same of them follow the grammar.

## Main definitions

* `Schedule.field` — the grammar of fields.
* `Literal.ReadAs` — the code units of a stretch of a string and the characters read for it.

## Main results

* `Language.mem_separated_iff` — words of a list with separators, by their pieces.
* `isScheduleField_iff` — **the check of a field accepts exactly the grammar.**
* `Literal.forall₂_fields` — the fields of a string and of what is read for it correspond.
* `Flow.checkSchedule_eq` — **the reports on the schedule of a flow.**
-/

open scoped Computability

/-! ### Languages with separators -/

namespace Language

variable {α : Type} {l m : Language α} {sep : α} {w : List α} {P : α → Prop}

/-- The nonempty words over a class of characters. -/
def runs (p : α → Bool) : Language α := {w | w ≠ [] ∧ ∀ c ∈ w, p c}

theorem mem_runs_iff {p : α → Bool} : w ∈ runs p ↔ w ≠ [] ∧ ∀ c ∈ w, p c := Iff.rfl

theorem mem_singleton_iff {v : List α} : w ∈ ({v} : Language α) ↔ w = v := Iff.rfl

theorem cons_mem_mul (h : w ∈ l) : sep :: w ∈ ({[sep]} : Language α) * l :=
  append_mem_mul (mem_singleton_iff.2 rfl) h

/-- All characters in the words of a language have a property. -/
def Over (P : α → Prop) (l : Language α) : Prop := ∀ w ∈ l, ∀ c ∈ w, P c

theorem over_one : (1 : Language α).Over P := by
  intro w hw
  rw [mem_one] at hw
  simp [hw]

theorem over_singleton {v : List α} (h : ∀ c ∈ v, P c) : ({v} : Language α).Over P := by
  intro w hw
  rw [mem_singleton_iff] at hw
  exact hw ▸ h

theorem over_runs {p : α → Bool} (h : ∀ c, p c → P c) : (runs p).Over P :=
  fun _ hw c hc => h c (hw.2 c hc)

theorem Over.add (hl : l.Over P) (hm : m.Over P) : (l + m).Over P := by
  intro w hw
  exact ((mem_add l m w).1 hw).elim (hl w) (hm w)

theorem Over.mul (hl : l.Over P) (hm : m.Over P) : (l * m).Over P := by
  intro w hw c hc
  obtain ⟨a, ha, b, hb, rfl⟩ := mem_mul.1 hw
  exact (List.mem_append.1 hc).elim (hl a ha c) (hm b hb c)

theorem Over.kstar (hl : l.Over P) : (l∗).Over P := by
  intro w hw c hc
  obtain ⟨ws, rfl, hws⟩ := mem_kstar.1 hw
  obtain ⟨v, hv, hc⟩ := List.mem_flatten.1 hc
  exact hl v (hws v hv) c hc

/-- A word perhaps with another one behind a separator. -/
theorem mem_mul_one_add_iff : w ∈ l * (1 + {[sep]} * m) ↔
    w ∈ l ∨ ∃ a ∈ l, ∃ b ∈ m, w = a ++ sep :: b := by
  rw [mem_mul]
  constructor
  · rintro ⟨a, ha, b, hb, rfl⟩
    rcases (mem_add _ _ _).1 hb with hb | hb
    · rw [mem_one] at hb
      exact .inl (by rwa [hb, List.append_nil])
    · obtain ⟨s, hs, b', hb', rfl⟩ := mem_mul.1 hb
      rw [mem_singleton_iff] at hs
      exact .inr ⟨a, ha, b', hb', by rw [hs, List.singleton_append]⟩
  · rintro (hw | ⟨a, ha, b, hb, rfl⟩)
    · exact ⟨w, hw, [], (mem_add _ _ _).2 (.inl nil_mem_one), List.append_nil w⟩
    · exact ⟨a, ha, sep :: b, (mem_add _ _ _).2 (.inr (cons_mem_mul hb)), rfl⟩

/-- Words with separators are put together of their pieces. -/
theorem intercalate_cons_mem {a : List α} {ws : List (List α)} (ha : a ∈ l) (hws : ∀ v ∈ ws, v ∈ l) :
    [sep].intercalate (a :: ws) ∈ l * ({[sep]} * l)∗ := by
  have hflat : ∀ (ws : List (List α)) (a : List α),
      [sep].intercalate (a :: ws) = a ++ (ws.map (sep :: ·)).flatten := by
    intro ws
    induction ws with
    | nil => simp [List.intercalate]
    | cons v ws ih =>
      intro a
      rw [List.intercalate_cons_cons, ih v]
      simp
  rw [hflat ws a]
  refine append_mem_mul ha (join_mem_kstar fun v hv => ?_)
  obtain ⟨b, hb, rfl⟩ := List.mem_map.1 hv
  exact cons_mem_mul (hws b hb)

variable [BEq α] [LawfulBEq α]

/-- A word perhaps with another one behind a separator has one or two pieces. -/
theorem mem_mul_one_add_iff_splitOn (hl : l.Over (· ≠ sep)) (hm : m.Over (· ≠ sep)) :
    w ∈ l * (1 + {[sep]} * m) ↔
      match w.splitOn sep with
      | [a] => a ∈ l
      | [a, b] => a ∈ l ∧ b ∈ m
      | _ => False := by
  have hfree : ∀ {k : Language α}, k.Over (· ≠ sep) → ∀ v ∈ k, sep ∉ v :=
    fun hk v hv hc => hk v hv sep hc rfl
  rw [mem_mul_one_add_iff]
  constructor
  · rintro (hw | ⟨a, ha, b, hb, rfl⟩)
    · rwa [List.splitOn_eq_singleton (hfree hl w hw)]
    · rw [List.splitOn_append_cons_self_of_not_mem (hfree hl a ha),
        List.splitOn_eq_singleton (hfree hm b hb)]
      exact ⟨ha, hb⟩
  · intro h
    have hw : [sep].intercalate (w.splitOn sep) = w := List.intercalate_splitOn sep
    split at h
    · next a heq =>
      rw [heq] at hw
      exact .inl (by simpa [← hw, List.intercalate] using h)
    · next a b heq =>
      rw [heq] at hw
      exact .inr ⟨a, h.1, b, h.2, by simp [← hw, List.intercalate]⟩
    · exact h.elim

/-- **Words of a list with separators are those whose pieces are words.** -/
theorem mem_separated_iff (hl : l.Over (· ≠ sep)) :
    w ∈ l * ({[sep]} * l)∗ ↔ ∀ piece ∈ w.splitOn sep, piece ∈ l := by
  have hfree : ∀ v ∈ l, sep ∉ v := fun v hv hc => hl v hv sep hc rfl
  constructor
  · intro hw
    obtain ⟨a, ha, b, hb, rfl⟩ := mem_mul.1 hw
    obtain ⟨ws, rfl, hws⟩ := mem_kstar.1 hb
    clear hw hb
    -- Piece by piece: each word in the closure begins with a separator.
    induction ws generalizing a with
    | nil => simpa [List.splitOn_eq_singleton (hfree a ha)] using ha
    | cons v ws ih =>
      obtain ⟨s, hs, b, hb, rfl⟩ := mem_mul.1 (hws v List.mem_cons_self)
      rw [mem_singleton_iff] at hs
      subst hs
      rw [List.flatten_cons, List.singleton_append, List.cons_append,
        List.splitOn_append_cons_self_of_not_mem (hfree a ha), List.forall_mem_cons]
      exact ⟨ha, ih b hb fun u hu => hws u (List.mem_cons_of_mem _ hu)⟩
  · intro h
    have hw : [sep].intercalate (w.splitOn sep) = w := List.intercalate_splitOn sep
    cases hpieces : w.splitOn sep with
    | nil => exact absurd hpieces (List.splitOn_ne_nil sep w)
    | cons a ws =>
      rw [hpieces] at h hw
      rw [← hw]
      exact intercalate_cons_mem (h a List.mem_cons_self) fun v hv =>
        h v (List.mem_cons_of_mem a hv)

end Language

namespace FlowAnalysis

open Syntax Literal Text

/-! ### The grammar of fields -/

namespace Schedule

open Language

/-- All values, one, or a range. -/
def range : Language Char :=
  {['*']} + runs Char.isAlphanum * (1 + {['-']} * runs Char.isAlphanum)

/-- Values, and perhaps a step. -/
def item : Language Char := range * (1 + {['/']} * runs Char.isDigit)

/-- Items with commas between them. -/
def field : Language Char := item * ({[',']} * item)∗

variable {P : Char → Prop}

theorem over_range (hstar : P '*') (hminus : P '-') (hrun : ∀ c : Char, c.isAlphanum → P c) :
    range.Over P :=
  (over_singleton (by simpa using hstar)).add <| (over_runs hrun).mul <|
    over_one.add <| (over_singleton (by simpa using hminus)).mul (over_runs hrun)

theorem over_item (hstar : P '*') (hminus : P '-') (hslash : P '/')
    (hrun : ∀ c : Char, c.isAlphanum → P c) : item.Over P :=
  (over_range hstar hminus hrun).mul <| over_one.add <|
    (over_singleton (by simpa using hslash)).mul <|
      over_runs fun c hc => hrun c (by simp [Char.isAlphanum, hc])

theorem over_field (hstar : P '*') (hminus : P '-') (hslash : P '/') (hcomma : P ',')
    (hrun : ∀ c : Char, c.isAlphanum → P c) : field.Over P :=
  (over_item hstar hminus hslash hrun).mul <|
    ((over_singleton (by simpa using hcomma)).mul (over_item hstar hminus hslash hrun)).kstar

end Schedule

/-! ### The check of a field -/

theorem splitAt_eq_splitOn (sep : Char) (text : List Char) :
    splitAt (· = sep) text = text.splitOn sep := by
  rw [splitAt_eq_splitOnP, List.splitOn_eq_splitOnP]
  rfl

theorem isRun_iff {p : Char → Bool} {w : List Char} : isRun p w ↔ w ∈ Language.runs p := by
  simp [isRun, Language.mem_runs_iff]

/-- A letter or a digit is none of the signs in a field. -/
theorem ne_of_isAlphanum {c d : Char} (hc : c.isAlphanum) (hd : d.isAlphanum = false) : c ≠ d := by
  rintro rfl
  simp [hc] at hd

theorem isScheduleRange_iff {w : List Char} : isScheduleRange w ↔ w ∈ Schedule.range := by
  have hrun : (Language.runs Char.isAlphanum).Over (· ≠ '-') :=
    Language.over_runs fun c hc => ne_of_isAlphanum hc (by decide)
  rw [Schedule.range, Language.mem_add, Language.mem_singleton_iff,
    Language.mem_mul_one_add_iff_splitOn hrun hrun, isScheduleRange, splitAt_eq_splitOn,
    Bool.or_eq_true, decide_eq_true_eq]
  refine or_congr_right ?_
  generalize w.splitOn '-' = pieces
  split <;> simp [isRun_iff]

theorem isScheduleItem_iff {w : List Char} : isScheduleItem w ↔ w ∈ Schedule.item := by
  have hrange : Schedule.range.Over (· ≠ '/') := Schedule.over_range (by decide) (by decide)
    fun c hc => ne_of_isAlphanum hc (by decide)
  have hstep : (Language.runs Char.isDigit).Over (· ≠ '/') := Language.over_runs fun c hc =>
    ne_of_isAlphanum (by simp [Char.isAlphanum, hc]) (by decide)
  rw [Schedule.item, Language.mem_mul_one_add_iff_splitOn hrange hstep, isScheduleItem,
    splitAt_eq_splitOn]
  generalize w.splitOn '/' = pieces
  split <;> simp [isRun_iff, isScheduleRange_iff]

/-- **The check of a field accepts exactly the grammar.** -/
theorem isScheduleField_iff {w : List Char} : isScheduleField w ↔ w ∈ Schedule.field := by
  have hitem : Schedule.item.Over (· ≠ ',') := Schedule.over_item (by decide) (by decide) (by decide)
    fun c hc => ne_of_isAlphanum hc (by decide)
  rw [Schedule.field, Language.mem_separated_iff hitem, isScheduleField, splitAt_eq_splitOn,
    List.all_eq_true]
  simp only [isScheduleItem_iff]

instance : DecidablePred (· ∈ Schedule.field) := fun _ =>
  decidable_of_iff _ isScheduleField_iff

/-! ### Schedules that are written as strings -/

namespace Literal

/-- Whether a code unit is a blank. -/
def isBlankUnit (u : Nat) : Bool := blankRanges.any fun r => r.1 ≤ u && u ≤ r.2

theorem isBlankUnit_toNat (c : Char) : isBlankUnit c.toNat = isBlank c := rfl

/-- There are no blanks among the halves of characters and beyond the basic characters. -/
theorem isBlankUnit_of_le {u : Nat} (h : 0xD800 ≤ u) : isBlankUnit u = false := by
  simp only [isBlankUnit, blankRanges, List.any_eq_false, Bool.and_eq_true, decide_eq_true_eq]
  intro r hr
  have hlast : r.2 < 0xD800 := by
    revert r
    decide
  omega

/-- The code units of a stretch of a string and the characters that are read for it: the same, or
neither could stand in a field of a schedule. -/
def ReadAs (u : List Nat) (w : List Char) : Prop :=
  u = w.map Char.toNat ∨ (∃ x ∈ u, 128 ≤ x) ∧ ∃ c ∈ w, c = '\\' ∨ 128 ≤ c.toNat

theorem ReadAs.append (u : List Nat) (w : List Char) (u' : List Nat) (w' : List Char)
    (h : ReadAs u w) (h' : ReadAs u' w') : ReadAs (u ++ u') (w ++ w') := by
  rcases h with rfl | ⟨⟨x, hx, hfar⟩, c, hc, hodd⟩
  · rcases h' with rfl | ⟨⟨x, hx, hfar⟩, c, hc, hodd⟩
    · exact .inl List.map_append.symm
    · exact .inr ⟨⟨x, List.mem_append_right _ hx, hfar⟩, c, List.mem_append_right _ hc, hodd⟩
  · exact .inr ⟨⟨x, List.mem_append_left _ hx, hfar⟩, c, List.mem_append_left _ hc, hodd⟩

/-- Characters stand for their code units. -/
theorem apart_textUnits {us : List Nat} {ws : List Char}
    (h : Apart isBlankUnit isBlank ReadAs us ws) (cs : List Char) :
    Apart isBlankUnit isBlank ReadAs (textUnits cs ++ us) (cs ++ ws) := by
  induction cs with
  | nil => exact h
  | cons c cs ih =>
    rw [textUnits_cons, List.append_assoc, List.cons_append, ← List.singleton_append]
    cases hblank : isBlank c with
    | true =>
      have hbasic : c.toNat < 0x10000 := by
        by_contra hfar
        rw [← isBlankUnit_toNat, isBlankUnit_of_le (by omega)] at hblank
        simp at hblank
      rw [unitsOf, if_pos hbasic]
      exact .blanks (List.cons_ne_nil _ _) (List.cons_ne_nil _ _)
        (by simpa [isBlankUnit_toNat] using hblank) (by simpa using hblank) ih
    | false =>
      by_cases hbasic : c.toNat < 0x10000
      · rw [unitsOf, if_pos hbasic]
        exact .solid (List.cons_ne_nil _ _) (List.cons_ne_nil _ _)
          (by simpa [isBlankUnit_toNat] using hblank) (by simpa using hblank) (.inl rfl) ih
      · rw [unitsOf, if_neg hbasic]
        have hodd : ReadAs [0xD800 + (c.toNat - 0x10000) / 0x400,
            0xDC00 + (c.toNat - 0x10000) % 0x400] [c] :=
          .inr ⟨⟨_, List.mem_cons_self, by omega⟩, c, List.mem_singleton_self c, .inr (by omega)⟩
        refine .solid (List.cons_ne_nil _ _) (List.cons_ne_nil _ _) ?_ (by simpa using hblank) hodd ih
        rw [List.forall_mem_cons, List.forall_mem_singleton]
        exact ⟨isBlankUnit_of_le (by omega), isBlankUnit_of_le (by omega)⟩

/-- A hexadecimal digit is no blank. -/
theorem isBlank_of_isHexDigit {c : Char} (h : Lexeme.isHexDigit c) : isBlank c = false := by
  have hrange : '0'.toNat ≤ c.toNat ∧ c.toNat ≤ 'f'.toNat := by
    simp only [Lexeme.isHexDigit, Char.isDigit, Bool.or_eq_true, Bool.and_eq_true,
      decide_eq_true_eq] at h
    rcases h with (h | h) | h <;>
      exact ⟨le_trans (by decide) (UInt32.le_iff_toNat_le.1 h.1),
        le_trans (UInt32.le_iff_toNat_le.1 h.2) (by decide)⟩
  obtain ⟨hlow, hhigh⟩ := hrange
  simp only [isBlank, blankRanges, List.any_eq_false, Bool.and_eq_true, decide_eq_true_eq]
  intro r hr
  have hapart : r.2 < '0'.toNat ∨ 'f'.toNat < r.1 := by
    revert r
    decide
  omega

/-- A piece of a string and the characters that are read for it. -/
theorem apart_piece {q : Delimiter} {p : Piece} (hp : q.admits p) {us : List Nat} {ws : List Char}
    (h : Apart isBlankUnit isBlank ReadAs us ws) :
    Apart isBlankUnit isBlank ReadAs (p.units ++ us) (p.read ++ ws) := by
  cases hhalf : p.isHalf with
  | true =>
    obtain ⟨ds, u, hread, hds, hunits, hu⟩ := Piece.read_of_isHalf hhalf
    rw [hread, hunits]
    simp only [isHalfUnit, Bool.and_eq_true, decide_eq_true_eq] at hu
    have hodd : ReadAs [u] ('\\' :: 'u' :: ds) :=
      .inr ⟨⟨u, List.mem_singleton_self u, by omega⟩, '\\', List.mem_cons_self, .inl rfl⟩
    refine .solid (List.cons_ne_nil _ _) (List.cons_ne_nil _ _) ?_ ?_ hodd h
    · simpa using isBlankUnit_of_le hu.1
    · simp only [List.forall_mem_cons]
      exact ⟨by decide, by decide, fun d hd => isBlank_of_isHexDigit (hds d hd)⟩
  | false =>
    cases hfolded : p.isFolded with
    | true =>
      cases p with
      | lineEnd e =>
        cases e with
        | carriageReturn =>
          exact .blanks (List.cons_ne_nil _ _) (List.cons_ne_nil _ _)
            (List.forall_mem_singleton.2 rfl) (List.forall_mem_singleton.2 rfl) h
        | both =>
          exact .blanks (List.cons_ne_nil _ _) (List.cons_ne_nil _ _)
            (List.forall_mem_singleton.2 rfl)
            (List.forall_mem_cons.2 ⟨rfl, List.forall_mem_singleton.2 rfl⟩) h
        | _ => simp [Piece.isFolded] at hfolded
      | _ => simp [Piece.isFolded] at hfolded
    | false =>
      rw [← Piece.textUnits_read hp hhalf hfolded]
      exact apart_textUnits h p.read

/-- **The fields of a string and of what is read for it correspond.** -/
theorem forall₂_fields {q : Delimiter} {ps : List Piece} (h : q.admitsAll ps) :
    List.Forall₂ ReadAs (fieldsBetween isBlankUnit (ps.flatMap Piece.units))
      (fieldsBetween isBlank (unescape (textOf ps))) := by
  rw [unescape_textOf h]
  refine Apart.forall₂_fieldsBetween ?_ ReadAs.append
  induction ps with
  | nil => exact .nil
  | cons p ps ih =>
    simp only [Delimiter.admitsAll, Bool.and_eq_true] at h
    exact apart_piece h.1.1 (ih h.2)

end Literal

/-- The fields of schedules in code units. -/
def Schedule.fieldUnits : Language Nat := Language.map Char.toNat Schedule.field

/-- The characters of fields are those of ASCII, and no backslash is among them. -/
theorem Schedule.over_field_ascii : Schedule.field.Over fun c => c ≠ '\\' ∧ c.toNat < 128 := by
  refine Schedule.over_field (by decide) (by decide) (by decide) (by decide) ?_
  intro c hc
  refine ⟨ne_of_isAlphanum hc (by decide), ?_⟩
  have hkinds : (c.isUpper ∨ c.isLower) ∨ c.isDigit := by
    rwa [← Bool.or_eq_true, ← Bool.or_eq_true]
  have hle : c.val ≤ 'z'.val := by
    rcases hkinds with (h | h) | h
    · exact UInt32.le_trans (of_decide_eq_true h).2 (by decide)
    · exact of_decide_eq_true (Bool.and_eq_true_iff.1 h).2
    · exact UInt32.le_trans (of_decide_eq_true (Bool.and_eq_true_iff.1 h).2) (by decide)
  exact lt_of_le_of_lt (UInt32.le_iff_toNat_le.1 hle) (by decide)

/-- What is read for a field follows the grammar exactly if the field does. -/
theorem Literal.ReadAs.mem_field_iff {u : List Nat} {w : List Char} (h : ReadAs u w) :
    u ∈ Schedule.fieldUnits ↔ w ∈ Schedule.field := by
  rcases h with rfl | ⟨⟨x, hx, hfar⟩, c, hc, hodd⟩
  · constructor
    · rintro ⟨v, hv, heq⟩
      have hinj : Function.Injective Char.toNat := fun _ _ => Char.toNat_inj.1
      exact (List.map_injective_iff.2 hinj heq) ▸ hv
    · exact fun hw => ⟨w, hw, rfl⟩
  · refine iff_of_false ?_ ?_
    · rintro ⟨v, hv, rfl⟩
      obtain ⟨d, hd, rfl⟩ := List.mem_map.1 hx
      have := (Schedule.over_field_ascii v hv d hd).2
      omega
    · intro hw
      obtain ⟨hbackslash, hascii⟩ := Schedule.over_field_ascii w hw c hc
      exact hodd.elim hbackslash (by omega)

/-! ### Reports -/

namespace Flow

variable {f : Flow} {c : FlowClass} {d : Field} {v : Tree} {written : String}

/-- **The reports on the schedule of a flow**: its number of fields if that is not five, or else the
fields that do not follow the grammar. -/
theorem checkSchedule_eq (hc : f.flowClass? = some c) (hfield : c.field? Trigger.scheduleField = some d)
    (hvalue : d.value = some v) (hwritten : f.source.stringValue? v.bare = some written) :
    f.checkSchedule =
      if (fieldsBetween isBlank written.toList).length ≠ 5 then
        [f.diagnosticAt d.node
          (.scheduleFieldCount written (fieldsBetween isBlank written.toList).length)]
      else
        ((fieldsBetween isBlank written.toList).filter (· ∉ Schedule.field)).map fun w =>
          f.diagnosticAt d.node (.scheduleField written (String.ofList w)) := by
  have hschedule : f.scheduleOf? c = some written := by
    simp [scheduleOf?, hfield, hvalue, hwritten]
  have hwrong : (fun w => !isScheduleField w) = fun w => decide (w ∉ Schedule.field) := by
    funext w
    rw [decide_not, Bool.eq_iff_iff, Bool.not_eq_true', Bool.not_eq_true', ← Bool.not_eq_true,
      isScheduleField_iff, decide_eq_false_iff_not]
  rw [checkSchedule, hc]
  simp only [hschedule, hfield, Option.map_some, Option.getD_some, scheduleFindings,
    words_eq_fieldsBetween, hwrong]
  split <;> simp

/-- **The check of a schedule accepts exactly the grammar.**  Nothing is reported if the schedule has
five fields that follow the grammar; another number of fields is reported once, and else each field
outside the grammar, in their order.  The code units that the string stands for fall into as many
fields as what is read for it, and the same of them follow the grammar. -/
theorem checkSchedule_reports {s : Source} {registry : Registry} {config : Config}
    (hc : (Flow.of s registry config).flowClass? = some c)
    (hfield : c.field? Trigger.scheduleField = some d) (hvalue : d.value = some v)
    (hwritten : s.stringValue? v.bare = some written) :
    let reports := (Flow.of s registry config).checkSchedule
    let fields := fieldsBetween isBlank written.toList
    (reports = [] ↔ fields.length = 5 ∧ ∀ w ∈ fields, w ∈ Schedule.field) ∧
    (fields.length ≠ 5 → reports =
      [⟨.scheduleFieldCount written fields.length, some (s.startOf d.node)⟩]) ∧
    (fields.length = 5 → reports = (fields.filter (· ∉ Schedule.field)).map fun w =>
      ⟨.scheduleField written (String.ofList w), some (s.startOf d.node)⟩) ∧
    ∀ q ps, s.quotes q ps v.bare →
      List.Forall₂ (fun u w => u ∈ Schedule.fieldUnits ↔ w ∈ Schedule.field)
        (fieldsBetween isBlankUnit (ps.flatMap Piece.units)) fields := by
  intro reports fields
  have hreports := checkSchedule_eq hc hfield hvalue hwritten
  refine ⟨?_, fun hcount => ?_, fun hcount => ?_, fun q ps hquotes => ?_⟩
  · by_cases hcount : fields.length = 5
    · simp only [reports, hreports]
      rw [if_neg (not_not_intro hcount), List.map_eq_nil_iff, List.filter_eq_nil_iff]
      simp [hcount, fields]
    · simp only [reports, hreports]
      rw [if_pos hcount]
      simp [hcount]
  · exact hreports.trans (if_pos hcount)
  · exact hreports.trans (if_neg (not_not_intro hcount))
  · have hread := Source.stringValue?_of_quotes hquotes
    obtain rfl := Option.some.inj (hwritten.symm.trans hread)
    have hpairs := forall₂_fields (Bool.and_eq_true_iff.1 hquotes).2
    simp only [fields, String.toList_ofList]
    exact hpairs.imp fun _ _ h => h.mem_field_iff

/-- A flow whose schedule has a field that is no schedule. -/
def weeklyText : String := "class F extends B\x7bcronSchedule='0/5\\t9 * * @'\x7d"

/-- Classes extend `B`. -/
def weeklyConfig : Config := { Config.standard with baseClass := "B" }

theorem checkSchedule_reports_weeklyText : ∃ s c d v,
    (Source.parse weeklyText = .ok s ∧
      (Flow.of s (.ofList []) weeklyConfig).flowClass? = some c ∧
      c.field? Trigger.scheduleField = some d ∧ d.value = some v ∧
      s.stringValue? v.bare = some "0/5\t9 * * @") ∧
    (Flow.of s (.ofList []) weeklyConfig).checkSchedule =
      [⟨.scheduleField "0/5\t9 * * @" "@", some (s.startOf d.node)⟩] := by
  have hread : (Source.parse weeklyText).toOption.any fun s =>
      (Flow.of s (.ofList []) weeklyConfig).flowClass?.any fun c =>
        (c.field? Trigger.scheduleField).any fun d => d.value.any fun v =>
          decide (s.stringValue? v.bare = some "0/5\t9 * * @") := by decide +kernel
  obtain ⟨s, hs, hread⟩ := exists_ok_of_any hread
  obtain ⟨c, hc, hread⟩ := (Option.any_eq_true _ _).1 hread
  obtain ⟨d, hfield, hread⟩ := (Option.any_eq_true _ _).1 hread
  obtain ⟨v, hvalue, hread⟩ := (Option.any_eq_true _ _).1 hread
  have hwritten := of_decide_eq_true hread
  have hfields : fieldsBetween isBlank "0/5\t9 * * @".toList =
      [['0', '/', '5'], ['9'], ['*'], ['*'], ['@']] := by decide
  obtain ⟨-, -, hreports, -⟩ := checkSchedule_reports hc hfield hvalue hwritten
  refine ⟨s, c, d, v, ⟨hs, hc, hfield, hvalue, hwritten⟩, ?_⟩
  rw [hreports (by rw [hfields]; rfl), hfields]
  rfl

end Flow

end FlowAnalysis
