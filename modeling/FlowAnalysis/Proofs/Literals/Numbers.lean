import FlowAnalysis.Proofs.Literals.Numerals
import FlowAnalysis.Proofs.Literals.Written
import Mathlib.Data.List.TakeWhile
import Mathlib.Tactic.Ring

/-!
# Whole numbers are read exactly

A numeral, with a minus in front of it or not, is read as the whole number that it stands for
whenever that is in range.  Otherwise it is never read as a whole number: a decimal one is read as
the nearest number with a binary point, and one in an announced base is not read at all.

Digits are added up without a bound here.  A reader that has nothing but 64-bit words, and that
stops at a part outside of the text or at a sum that is too large, reads the same.

## Main definitions

* `signed`, `Numeral.inRange` — the number with its sign, and whether it fits.
* `readNumber` — the reader with words, in which a `Fault` is what can go wrong.

## Main results

* **`Numeral.numberOf?_text`** — what a numeral is read as, with words or without.
* `foldlM_addDigit` — digits added up word by word.
-/

namespace FlowAnalysis

open Syntax Decimal

namespace Literal

/-- A number with a sign. -/
def signed (negative : Bool) (n : Nat) : Int := if negative then -(n : Int) else n

namespace Numeral

/-- Whether a numeral is small enough to be read as a whole number: a decimal one as a word with its
sign, and any other one as a word without it. -/
def inRange (l : Numeral) (negative : Bool) : Bool :=
  match l.radix with
  | .decimal => -2 ^ 63 ≤ signed negative l.value && signed negative l.value < 2 ^ 63
  | _ => l.value < 2 ^ 63

/-- The text of a numeral with a minus in front of it, or none. -/
def signedText (l : Numeral) (negative : Bool) : List Char :=
  if negative then '-' :: l.text else l.text

end Numeral

/-! ### Digits -/

theorem digitNumber_eq {r : Radix} {c : Char} (h : r.isDigit c) :
    (if c.isDigit then c.toNat - 48 else c.toLower.toNat - 87) = digitNumber c := by
  refine Radix.forall_isDigit (fun c => (if c.isDigit then c.toNat - 48 else
    c.toLower.toNat - 87) = digitNumber c) ?_ h
  cases r <;> decide

theorem digitNumber_lt {r : Radix} {c : Char} (h : r.isDigit c) : digitNumber c < r.base := by
  refine Radix.forall_isDigit (fun c => digitNumber c < r.base) ?_ h
  cases r <;> decide

/-- Adding up digits from the front gives the number that they are the digits of. -/
theorem foldl_eq_ofDigits (b : Nat) (ds : List Nat) (n : Nat) :
    ds.foldl (fun n d => n * b + d) n = Nat.ofDigits b (ds.reverse ++ [n]) := by
  induction ds generalizing n with
  | nil => simp
  | cons d ds ih =>
    rw [List.foldl_cons, ih, List.reverse_cons, Nat.ofDigits_append, Nat.ofDigits_append,
      Nat.ofDigits_append]
    simp only [Nat.ofDigits_singleton, List.length_append, List.length_singleton]
    ring

theorem le_foldl {b : Nat} (hb : 0 < b) (ds : List Nat) (n : Nat) :
    n ≤ ds.foldl (fun n d => n * b + d) n := by
  induction ds generalizing n with
  | nil => exact Nat.le_refl n
  | cons d ds ih =>
    have hstep : n ≤ n * b := Nat.le_mul_of_pos_right n hb
    exact Nat.le_trans (Nat.le_trans hstep (Nat.le_add_right _ d)) (ih (n * b + d))

/-- The number that the digits of a numeral are read as is the number that they stand for. -/
theorem digitsValue_eq_ofDigits {r : Radix} {ds : List Char} (h : ∀ c ∈ ds, r.isDigit c) :
    digitsValue r.base ds = Nat.ofDigits r.base (ds.map digitNumber).reverse := by
  have hfold : digitsValue r.base ds =
      (ds.map digitNumber).foldl (fun n d => n * r.base + d) 0 := by
    rw [digitsValue, List.foldl_map]
    exact List.foldl_ext _ _ _ fun n c hc => by rw [digitNumber_eq (h c hc)]
  rw [hfold, foldl_eq_ofDigits, Nat.ofDigits_append]
  simp

/-! ### Reading with words -/

/-- A number that fits into a word. -/
def word? (i : Int) : Option Int := if fitsWord i then some i else none

/-- The number that a digit to a base stands for. -/
def digitIn? (base : Nat) (c : Char) : Option Nat :=
  if digitNumber c < base then some (digitNumber c) else none

/-- A word with one more digit: the product and the sum have to be words as well. -/
def addDigit (base : Nat) (negative : Bool) (i : Int) (c : Char) : Option Int := do
  let d ← digitIn? base c
  let j ← word? (i * base)
  word? (if negative then j - d else j + d)

/-- The word that digits stand for; a minus is taken into account with every digit. -/
def wordOf? (base : Nat) (negative : Bool) (digits : List Char) : Option Int :=
  if digits.isEmpty then none else digits.foldlM (addDigit base negative) 0

/-- The word that digits with a sign, or none, stand for. -/
def signedWordOf? (base : Nat) : List Char → Option Int
  | '-' :: digits => wordOf? base true digits
  | '+' :: digits => wordOf? base false digits
  | digits => wordOf? base false digits

/-- What can go wrong with words and with parts of texts. -/
inductive Fault
  /-- A part that begins behind the end of the text. -/
  | outside
  /-- A result that does not fit into a word. -/
  | overflow
  deriving DecidableEq, Repr

/-- The part of a text from an offset on. -/
def partFrom (i : Nat) (text : List Char) : Except Fault (List Char) :=
  if i ≤ text.length then .ok (text.drop i) else .error .outside

/-- A word with the opposite sign. -/
def negateWord (i : Int) : Except Fault Int :=
  if fitsWord (-i) then .ok (-i) else .error .overflow

/-- The base that the two characters in front of digits announce. -/
def announcedBase? : List Char → Option Nat
  | ['0', c] =>
    if c.toLower = 'x' then some 16
    else if c.toLower = 'o' then some 8
    else if c.toLower = 'b' then some 2
    else none
  | _ => none

/-- Reads a number in a base that is announced: a minus is taken into account in the end. -/
def readAnnounced (base : Nat) (negative : Bool) (text : List Char) :
    Except Fault (Option Number) := do
  match signedWordOf? base (← partFrom 2 text) with
  | some i => return some (.int (← if negative then negateWord i else pure i))
  | none => return none

/-- Reads a decimal number: a whole one that does not fit into a word is read like any other. -/
def readDecimal (negative : Bool) (text : List Char) : Option Number :=
  let whole :=
    if text.all fun c => c ≠ '.' && c ≠ 'e' && c ≠ 'E' then
      signedWordOf? 10 (if negative then '-' :: text else text)
    else none
  match whole with
  | some i => some (.int i)
  | none =>
    let (digits, e) := decimalParts text
    (Binary64.ofDecimal? negative digits e).map .float

/-- Reads a number without a sign in front of it. -/
def readUnsigned (negative : Bool) (text : List Char) : Except Fault (Option Number) :=
  match announcedBase? (text.take 2) with
  | some base => readAnnounced base negative text
  | none => pure (readDecimal negative text)

/-- Reads a number with words: the sign is part of the text. -/
def readNumber (text : List Char) : Except Fault (Option Number) :=
  if text.getLast? = some 'n' then pure none
  else
    match text.filter (· ≠ '_') with
    | '-' :: text => readUnsigned true text
    | text => readUnsigned false text

theorem fitsWord_iff {i : Int} : fitsWord i ↔ -2 ^ 63 ≤ i ∧ i < 2 ^ 63 := by
  rw [fitsWord, Bool.and_eq_true, decide_eq_true_eq, decide_eq_true_eq]
  norm_num

/-- Smaller numbers of the same sign fit if a number does. -/
theorem fitsWord_signed_of_le {negative : Bool} {m n : Nat} (hmn : m ≤ n)
    (h : fitsWord (signed negative n)) : fitsWord (signed negative m) := by
  rw [fitsWord_iff] at *
  cases negative <;> simp only [signed, if_true, Bool.false_eq_true, if_false] at * <;> omega

theorem addDigit_signed {base : Nat} (negative : Bool) (n : Nat) {c : Char}
    (hc : digitNumber c < base) : addDigit base negative (signed negative n) c =
      word? (signed negative (n * base + digitNumber c)) := by
  have hmul : signed negative n * base = signed negative (n * base) := by
    cases negative <;> simp [signed]
  have hadd : (if negative then signed negative (n * base) - digitNumber c
      else signed negative (n * base) + digitNumber c) =
        signed negative (n * base + digitNumber c) := by
    cases negative <;> simp only [signed, if_true, Bool.false_eq_true, if_false] <;> omega
  rw [addDigit, digitIn?, if_pos hc, Option.bind_eq_bind, Option.bind_some, hmul]
  by_cases hword : fitsWord (signed negative (n * base))
  · rw [word?, if_pos hword, Option.bind_eq_bind, Option.bind_some, hadd]
  · -- The sum is too large as well.
    have hsum : ¬ fitsWord (signed negative (n * base + digitNumber c)) := fun h =>
      hword (fitsWord_signed_of_le (Nat.le_add_right _ _) h)
    rw [word?, if_neg hword, word?, if_neg hsum]
    rfl

/-- **Digits are added up to what they stand for, unless that does not fit into a word.**  None of
the words on the way is larger than the last one. -/
theorem foldlM_addDigit {base : Nat} (hbase : 0 < base) (negative : Bool) {ds : List Char}
    (hds : ∀ c ∈ ds, digitNumber c < base) {n : Nat} (hn : fitsWord (signed negative n)) :
    ds.foldlM (addDigit base negative) (signed negative n) =
      word? (signed negative ((ds.map digitNumber).foldl (fun n d => n * base + d) n)) := by
  induction ds generalizing n with
  | nil => exact (if_pos hn).symm
  | cons c ds ih =>
    rw [List.forall_mem_cons] at hds
    rw [List.foldlM_cons, addDigit_signed negative n hds.1, List.map_cons, List.foldl_cons]
    by_cases hword : fitsWord (signed negative (n * base + digitNumber c))
    · rw [word?, if_pos hword]
      exact ih hds.2 hword
    · have hle : n * base + digitNumber c ≤
          (ds.map digitNumber).foldl (fun n d => n * base + d) (n * base + digitNumber c) := by
        exact le_foldl hbase _ _
      rw [word?, if_neg hword, word?, if_neg fun h => hword (fitsWord_signed_of_le hle h)]
      rfl

theorem wordOf?_eq {base : Nat} (hbase : 0 < base) (negative : Bool) {ds : List Char}
    (hne : ds ≠ []) (hds : ∀ c ∈ ds, digitNumber c < base) : wordOf? base negative ds =
      word? (signed negative (Nat.ofDigits base (ds.map digitNumber).reverse)) := by
  have hzero : (0 : Int) = signed negative 0 := by cases negative <;> rfl
  rw [wordOf?, if_neg (by simpa using hne), hzero, foldlM_addDigit hbase negative hds
    (by cases negative <;> decide), foldl_eq_ofDigits, Nat.ofDigits_append]
  simp

/-! ### Numerals -/

namespace Numeral

variable (l : Numeral)

/-- The digits of a numeral without the underscores. -/
def plainDigits : List Char := l.digits.filter (· ≠ '_')

theorem isDigit_of_mem_plainDigits : ∀ c ∈ l.plainDigits, l.radix.isDigit c := by
  intro c hc
  obtain ⟨hmem, hne⟩ := List.mem_filter.1 hc
  exact (digit_or_eq_of_mem l.areDigits c hmem).resolve_right (by simpa using hne)

theorem plainDigits_ne_nil : l.plainDigits ≠ [] := by
  obtain ⟨c, rest, hds, hc⟩ := exists_digit_of_areDigits l.areDigits
  have hne : c ≠ '_' := ne_of_isDigit (by decide) hc
  simp [plainDigits, hds, hne]

theorem value_eq : digitsValue l.radix.base l.plainDigits = l.value :=
  digitsValue_eq_ofDigits l.isDigit_of_mem_plainDigits

variable {l}

theorem getLast?_text_of_big (h : l.big) : l.text.getLast? = some 'n' := by
  simp [text, h]

theorem not_mem_text {c : Char} (hbig : l.big = false) (hc : Lexeme.isHexDigit c = false)
    (hmark : c ∉ ['b', 'B', 'o', 'O', 'x', 'X', '_']) : c ∉ l.text := by
  have hmem : ∀ d ∈ l.radix.mark l.upper,
      Lexeme.isHexDigit d ∨ d ∈ ['b', 'B', 'o', 'O', 'x', 'X', '_'] := by
    cases l.radix <;> cases l.upper <;> simp [Radix.mark, Lexeme.isHexDigit]
  intro h
  simp only [text, hbig, Bool.false_eq_true, if_false, List.append_nil, List.mem_append] at h
  rcases h with h | h
  · rcases hmem c h with h | h
    · simp [h] at hc
    · exact hmark h
  · rcases digit_or_eq_of_mem l.areDigits c h with h | rfl
    · simp [Radix.isHexDigit_of_isDigit h] at hc
    · simp at hmark

theorem filter_text (hbig : l.big = false) :
    l.text.filter (· ≠ '_') = l.radix.mark l.upper ++ l.plainDigits := by
  have hmark : (l.radix.mark l.upper).filter (· ≠ '_') = l.radix.mark l.upper := by
    cases l.radix <;> cases l.upper <;> decide
  simp only [text, hbig, Bool.false_eq_true, if_false, List.append_nil, List.filter_append, hmark,
    plainDigits]

theorem radixOf?_mark {r : Radix} (h : r ≠ .decimal) (upper : Bool) (ds : List Char) :
    radixOf? (r.mark upper ++ ds) = some (r.base, ds) := by
  cases r <;> cases upper <;> first | rfl | exact absurd rfl h

theorem inRange_of_decimal (h : l.radix = .decimal) (negative : Bool) :
    l.inRange negative = fitsWord (signed negative l.value) := by
  rw [inRange, h, Bool.eq_iff_iff, fitsWord_iff, Bool.and_eq_true, decide_eq_true_eq,
    decide_eq_true_eq]

theorem inRange_of_announced (h : l.radix ≠ .decimal) (negative : Bool) :
    l.inRange negative = fitsWord (signed false l.value) := by
  have hrange : l.inRange negative = decide (l.value < 2 ^ 63) := by
    unfold inRange
    cases hr : l.radix <;> first | rfl | exact absurd hr h
  rw [hrange, Bool.eq_iff_iff, fitsWord_iff, decide_eq_true_eq, signed,
    if_neg Bool.false_ne_true]
  omega

/-- A numeral in an announced base is read if its value fits into a word without a sign. -/
theorem numberOf?_announced (hbig : l.big = false) (h : l.radix ≠ .decimal) (negative : Bool) :
    numberOf? negative l.text =
      if l.inRange negative then some (.int (signed negative l.value)) else none := by
  have hlast : l.text.getLast? ≠ some 'n' := fun hlast =>
    not_mem_text hbig (by decide) (by decide) (List.mem_of_getLast? hlast)
  have hrange : l.inRange negative ↔ l.value < Nat.pow 2 63 := by
    rw [inRange_of_announced h, fitsWord_iff, signed, if_neg Bool.false_ne_true]
    show _ ↔ l.value < 2 ^ 63
    omega
  rw [numberOf?, if_neg hlast, filter_text hbig, radixOf?_mark h]
  dsimp only
  rw [value_eq]
  simp only [hrange]
  rfl

/-- Digits alone have no fraction and no exponent. -/
theorem decimalParts_plainDigits (h : l.radix = .decimal) :
    decimalParts l.plainDigits = (l.value, 0) := by
  have hne : ∀ {d : Char}, d.isDigit = false → ∀ c ∈ l.plainDigits, c ≠ d := by
    rintro d hd c hc rfl
    have hdigit := l.isDigit_of_mem_plainDigits c hc
    rw [h] at hdigit
    exact absurd hdigit (by simp [Radix.isDigit, hd])
  have hmark : ∀ c ∈ l.plainDigits, (!(decide (c = 'e') || decide (c = 'E'))) = true := by
    intro c hc
    simp [hne (d := 'e') rfl c hc, hne (d := 'E') rfl c hc]
  have hpoint : ∀ c ∈ l.plainDigits, decide (c ≠ '.') = true := fun c hc =>
    decide_eq_true (hne rfl c hc)
  have hbase : l.radix.base = 10 := by rw [h]; rfl
  rw [decimalParts]
  simp only [List.takeWhile_eq_self_iff.2 hmark, List.dropWhile_eq_nil_iff.2 hmark,
    List.takeWhile_eq_self_iff.2 hpoint, List.dropWhile_eq_nil_iff.2 hpoint]
  rw [List.drop_nil, List.append_nil, ← hbase, value_eq]
  rfl

/-- A decimal numeral is read as a whole number if its value fits into a word with its sign, and as
the nearest number with a binary point otherwise. -/
theorem numberOf?_decimal (hbig : l.big = false) (h : l.radix = .decimal) (negative : Bool) :
    numberOf? negative l.text =
      if l.inRange negative then some (.int (signed negative l.value))
      else (Binary64.ofDecimal? negative l.value 0).map .float := by
  have hlast : l.text.getLast? ≠ some 'n' := fun hlast =>
    not_mem_text hbig (by decide) (by decide) (List.mem_of_getLast? hlast)
  have hdigits : ∀ c ∈ l.plainDigits, c.isDigit := by
    have := l.isDigit_of_mem_plainDigits
    rwa [h] at this
  have hbase : l.radix.base = 10 := by rw [h]; rfl
  rw [numberOf?, if_neg hlast, filter_text hbig, show l.radix.mark l.upper = [] by rw [h]; rfl,
    List.nil_append, radixOf?_eq_none hdigits]
  dsimp only
  rw [← hbase, value_eq, List.all_eq_true.2 hdigits, Bool.true_and, inRange_of_decimal h,
    decimalParts_plainDigits h]
  rfl

end Numeral

theorem signedWordOf?_eq {base : Nat} (hbase : 0 < base) {ds : List Char} (hne : ds ≠ [])
    (hds : ∀ c ∈ ds, digitNumber c < base) (hsign : ∀ c ∈ ds, c ≠ '-' ∧ c ≠ '+') (negative : Bool) :
    signedWordOf? base (if negative then '-' :: ds else ds) =
      word? (signed negative (Nat.ofDigits base (ds.map digitNumber).reverse)) := by
  rw [← wordOf?_eq hbase negative hne hds]
  cases negative with
  | true => rfl
  | false =>
    rw [if_neg Bool.false_ne_true, signedWordOf?]
    · rintro rest rfl
      exact (hsign '-' List.mem_cons_self).1 rfl
    · rintro rest rfl
      exact (hsign '+' List.mem_cons_self).2 rfl

namespace Numeral

variable {l : Numeral}

theorem signedWordOf?_plainDigits (l : Numeral) (negative : Bool) :
    signedWordOf? l.radix.base (if negative then '-' :: l.plainDigits else l.plainDigits) =
      word? (signed negative l.value) := by
  have hdigit := l.isDigit_of_mem_plainDigits
  refine signedWordOf?_eq (by cases l.radix <;> decide) l.plainDigits_ne_nil
    (fun c hc => digitNumber_lt (hdigit c hc)) (fun c hc => ?_) negative
  exact ⟨ne_of_isDigit (by decide) (hdigit c hc), ne_of_isDigit (by decide) (hdigit c hc)⟩

theorem announcedBase?_mark {r : Radix} (h : r ≠ .decimal) (upper : Bool) (ds : List Char) :
    announcedBase? ((r.mark upper ++ ds).take 2) = some r.base := by
  cases r <;> cases upper <;> first | rfl | exact absurd rfl h

theorem announcedBase?_eq_none {ds : List Char} (h : ∀ c ∈ ds, c.isDigit) :
    announcedBase? (ds.take 2) = none := by
  unfold announcedBase?
  split
  · next c hc =>
    have hmem : c ∈ ds.take 2 := by rw [hc]; simp
    have hdigit : c.isDigit := h c (List.mem_of_mem_take hmem)
    have hlower : ∀ n < 128, (Char.ofNat n).isDigit → (Char.ofNat n).toLower ≠ 'x' ∧
        (Char.ofNat n).toLower ≠ 'o' ∧ (Char.ofNat n).toLower ≠ 'b' := by decide
    obtain ⟨hx, ho, hb⟩ := Radix.forall_isDigit (r := .decimal)
      (fun c => c.toLower ≠ 'x' ∧ c.toLower ≠ 'o' ∧ c.toLower ≠ 'b') hlower hdigit
    rw [if_neg hx, if_neg ho, if_neg hb]
  · rfl

theorem partFrom_mark (h : l.radix ≠ .decimal) :
    partFrom 2 (l.radix.mark l.upper ++ l.plainDigits) = .ok l.plainDigits := by
  cases hr : l.radix with
  | decimal => exact absurd hr h
  | _ => simp [partFrom, Radix.mark]

theorem negateWord_signed {n : Nat} (h : fitsWord (signed false n)) :
    negateWord (signed false n) = .ok (signed true n) := by
  have hneg : fitsWord (-signed false n) := by
    rw [fitsWord_iff] at *
    simp only [signed, Bool.false_eq_true, if_false] at *
    omega
  exact if_pos hneg

theorem readAnnounced_eq (h : l.radix ≠ .decimal) (negative : Bool) :
    readAnnounced l.radix.base negative (l.radix.mark l.upper ++ l.plainDigits) =
      .ok (if l.inRange negative then some (.int (signed negative l.value)) else none) := by
  have hword : signedWordOf? l.radix.base l.plainDigits = word? (signed false l.value) :=
    l.signedWordOf?_plainDigits false
  rw [readAnnounced, partFrom_mark h, inRange_of_announced h]
  dsimp only [bind, Except.bind]
  rw [hword, word?]
  by_cases hfits : fitsWord (signed false l.value)
  · rw [if_pos hfits, if_pos hfits]
    cases negative with
    | true =>
      dsimp only
      rw [if_pos rfl, negateWord_signed hfits]
      rfl
    | false => rfl
  · rw [if_neg hfits, if_neg hfits]
    rfl

theorem readDecimal_eq (hbig : l.big = false) (h : l.radix = .decimal) (negative : Bool) :
    readDecimal negative l.plainDigits = numberOf? negative l.text := by
  have hall : l.plainDigits.all (fun c => c ≠ '.' && c ≠ 'e' && c ≠ 'E') := by
    rw [List.all_eq_true]
    intro c hc
    have hdigit := l.isDigit_of_mem_plainDigits c hc
    rw [h] at hdigit
    refine Radix.forall_isDigit (r := .decimal) (fun c => (c ≠ '.' && c ≠ 'e' && c ≠ 'E')) ?_ hdigit
    decide
  have hword := l.signedWordOf?_plainDigits negative
  rw [show l.radix.base = 10 by rw [h]; rfl] at hword
  rw [numberOf?_decimal hbig h, readDecimal, if_pos hall, hword, inRange_of_decimal h, word?,
    decimalParts_plainDigits h]
  by_cases hfits : fitsWord (signed negative l.value)
  · rw [if_pos hfits, if_pos hfits]
  · rw [if_neg hfits, if_neg hfits]

/-- The digits of a numeral are read with words as the numeral is read without them. -/
theorem readUnsigned_eq (hbig : l.big = false) (negative : Bool) :
    readUnsigned negative (l.radix.mark l.upper ++ l.plainDigits) =
      .ok (numberOf? negative l.text) := by
  by_cases h : l.radix = .decimal
  · have hdigits : ∀ c ∈ l.plainDigits, c.isDigit := by
      have := l.isDigit_of_mem_plainDigits
      rwa [h] at this
    rw [show l.radix.mark l.upper = [] by rw [h]; rfl, List.nil_append, readUnsigned,
      announcedBase?_eq_none hdigits]
    exact congrArg Except.ok (readDecimal_eq hbig h negative)
  · rw [readUnsigned, announcedBase?_mark h, numberOf?_announced hbig h]
    exact readAnnounced_eq h negative

/-- **A numeral is read with words as it is read without them**: no part of it is outside, and no
result is too large for a word. -/
theorem readNumber_signedText (l : Numeral) (negative : Bool) :
    readNumber (l.signedText negative) = .ok (numberOf? negative l.text) := by
  have hne : l.text ≠ [] := by
    obtain ⟨c, rest, hds, -⟩ := exists_digit_of_areDigits l.areDigits
    simp [text, hds]
  have hlast : (l.signedText negative).getLast? = l.text.getLast? := by
    cases negative with
    | true => rw [signedText, if_pos rfl, List.getLast?_cons_of_ne_nil hne]
    | false => rfl
  cases hbig : l.big with
  | true =>
    rw [readNumber, hlast, if_pos (getLast?_text_of_big hbig), numberOf?,
      if_pos (getLast?_text_of_big hbig)]
    rfl
  | false =>
    have hnot : l.text.getLast? ≠ some 'n' := fun hlast =>
      not_mem_text hbig (by decide) (by decide) (List.mem_of_getLast? hlast)
    have hminus : ∀ rest, l.text.filter (· ≠ '_') ≠ '-' :: rest := fun rest heq =>
      not_mem_text hbig (by decide) (by decide) (List.mem_of_mem_filter (heq ▸ List.mem_cons_self))
    rw [readNumber, hlast, if_neg hnot, ← readUnsigned_eq hbig, ← filter_text hbig]
    cases negative with
    | true => rfl
    | false =>
      show (match l.text.filter (· ≠ '_') with
        | '-' :: text => readUnsigned true text
        | text => readUnsigned false text) = _
      split
      · next heq => exact absurd heq (hminus _)
      · rfl

/-- **A whole number is read exactly, or not as a whole number at all.** -/
theorem numberOf?_text (l : Numeral) (negative : Bool) :
    readNumber (l.signedText negative) = .ok (numberOf? negative l.text) ∧
    numberOf? negative l.text =
      if l.big then none
      else if l.inRange negative then some (.int (signed negative l.value))
      else if l.radix = .decimal then (Binary64.ofDecimal? negative l.value 0).map .float
      else none := by
  refine ⟨readNumber_signedText l negative, ?_⟩
  cases hbig : l.big with
  | true => rw [numberOf?, if_pos (getLast?_text_of_big hbig), if_pos rfl]
  | false =>
    rw [if_neg Bool.false_ne_true]
    by_cases h : l.radix = .decimal
    · rw [numberOf?_decimal hbig h, if_pos h]
    · rw [numberOf?_announced hbig h, if_neg h]

-- The smallest word can be written in digits only.
example : numberOf? true "9223372036854775808".toList = some (.int (-9223372036854775808)) := by
  decide

example : numberOf? true "0x8000_0000_0000_0000".toList = none := by decide

end Numeral

end Literal

end FlowAnalysis
