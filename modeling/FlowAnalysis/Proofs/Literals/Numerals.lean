import FlowAnalysis.Proofs.Syntax.Lexemes
import Mathlib.Data.Nat.Digits.Defs

/-!
# Numerals

How a whole number is written: in one of four bases, with single underscores between its digits, and
marked as a number of arbitrary size or not.  Numerals are what the grammar takes for whole numbers,
but for decimal ones that have a zero in front of other digits.

## Main definitions

* `Radix`, `areDigits` — the bases, and digits with underscores between them.
* `Numeral` — a whole number as it is written, `Numeral.text` its text and `Numeral.value` the
  number that it stands for.
* `runLength` — how far a text goes on with digits.
* `Syntax.Lexeme.wholeEnd?` — the end of a whole number.

## Main results

* **`exists_numeral_iff`** — the texts of numerals are the whole numbers that are not padded.
* `Numeral.numberEnd?_text` — a numeral is a number to its end.
-/

namespace FlowAnalysis

open Syntax

namespace Literal

/-- The base that a whole number is written in. -/
inductive Radix
  | decimal
  | binary
  | octal
  | hexadecimal
  deriving DecidableEq, Repr

namespace Radix

/-- How many digits there are. -/
def base : Radix → Nat
  | decimal => 10
  | binary => 2
  | octal => 8
  | hexadecimal => 16

/-- What stands in front of the digits. -/
def mark (r : Radix) (upper : Bool) : List Char :=
  match r with
  | decimal => []
  | binary => ['0', if upper then 'B' else 'b']
  | octal => ['0', if upper then 'O' else 'o']
  | hexadecimal => ['0', if upper then 'X' else 'x']

/-- Whether a character is one of the digits. -/
def isDigit : Radix → Char → Bool
  | decimal => Char.isDigit
  | binary => fun c => c = '0' || c = '1'
  | octal => fun c => '0' ≤ c && c ≤ '7'
  | hexadecimal => Lexeme.isHexDigit

end Radix

/-- Whether a text consists of digits, with single underscores between them or not. -/
def areDigits (digit : Char → Bool) : List Char → Bool
  | [] => false
  | [c] => digit c
  | c :: '_' :: rest => digit c && areDigits digit rest
  | c :: d :: rest => digit c && areDigits digit (d :: rest)

/-- A whole number as it is written.  A decimal one has no zero in front of other digits. -/
structure Numeral where
  radix : Radix
  /-- Whether the letter that announces the base is upper case. -/
  upper : Bool
  digits : List Char
  /-- Whether it is marked as a number of arbitrary size. -/
  big : Bool
  areDigits : areDigits radix.isDigit digits
  unpadded : radix = .decimal → digits.head? = some '0' → digits = ['0']

/-- The number that a digit stands for. -/
def digitNumber (c : Char) : Nat := "0123456789abcdef".toList.idxOf c.toLower

namespace Numeral

/-- The text of a numeral. -/
def text (l : Numeral) : List Char :=
  l.radix.mark l.upper ++ l.digits ++ if l.big then ['n'] else []

/-- The number that a numeral stands for. -/
def value (l : Numeral) : Nat :=
  Nat.ofDigits l.radix.base ((l.digits.filter (· ≠ '_')).map digitNumber).reverse

end Numeral

/-! ### Digits -/

/-- Only some of the first 128 characters are digits. -/
theorem Radix.toNat_lt_of_isDigit {r : Radix} {c : Char} (h : r.isDigit c) : c.toNat < 128 := by
  have hle : ∃ d : Char, d.toNat < 128 ∧ c ≤ d := by
    cases r <;> simp only [isDigit, Lexeme.isHexDigit, Char.isDigit, Bool.or_eq_true,
      Bool.and_eq_true, decide_eq_true_eq] at h
    · exact ⟨'9', by decide, h.2⟩
    · rcases h with rfl | rfl <;> exact ⟨'1', by decide, by decide⟩
    · exact ⟨'7', by decide, h.2⟩
    · rcases h with (h | h) | h
      · exact ⟨'9', by decide, h.2⟩
      · exact ⟨'f', by decide, h.2⟩
      · exact ⟨'F', by decide, h.2⟩
  obtain ⟨d, hd, hc⟩ := hle
  exact Nat.lt_of_le_of_lt (UInt32.le_iff_toNat_le.1 hc) hd

/-- What is to be shown of digits can be tried out on the first 128 characters. -/
theorem Radix.forall_isDigit {r : Radix} (P : Char → Prop)
    (h : ∀ n < 128, r.isDigit (Char.ofNat n) → P (Char.ofNat n)) {c : Char} (hc : r.isDigit c) :
    P c := by
  have hP := h c.toNat (toNat_lt_of_isDigit hc)
  rw [Char.ofNat_toNat] at hP
  exact hP hc

theorem Radix.isHexDigit_of_isDigit {r : Radix} {c : Char} (h : r.isDigit c) :
    Lexeme.isHexDigit c := by
  refine Radix.forall_isDigit (fun c => Lexeme.isHexDigit c) ?_ h
  cases r <;> decide

theorem Radix.isDigit_underscore (r : Radix) : r.isDigit '_' = false := by
  cases r <;> decide

/-- The mark of a base is a zero and a letter. -/
theorem mark_eq {r : Radix} (h : r ≠ .decimal) (upper : Bool) :
    ∃ c, r.mark upper = ['0', c] ∧ c.isDigit = false ∧ c ≠ '_' ∧ c ≠ 'n' := by
  cases r with
  | decimal => exact absurd rfl h
  | _ => cases upper <;> exact ⟨_, rfl, by decide, by decide, by decide⟩

theorem length_mark {r : Radix} (h : r ≠ .decimal) (upper : Bool) :
    (r.mark upper).length = 2 := by
  obtain ⟨c, hc, -⟩ := mark_eq h upper
  rw [hc]
  rfl

theorem ne_of_isDigit {r : Radix} {c d : Char} (hd : Lexeme.isHexDigit d = false)
    (h : r.isDigit c) : c ≠ d := by
  rintro rfl
  simp [Radix.isHexDigit_of_isDigit h] at hd

section AreDigits

variable {digit : Char → Bool} {ds : List Char}

theorem digit_or_eq_of_mem (h : areDigits digit ds) : ∀ c ∈ ds, digit c ∨ c = '_' := by
  fun_induction areDigits digit ds with
  | case1 => simp at h
  | case2 c => simpa using .inl h
  | case3 c rest ih =>
    rw [Bool.and_eq_true] at h
    exact List.forall_mem_cons.2 ⟨.inl h.1, List.forall_mem_cons.2 ⟨.inr rfl, ih h.2⟩⟩
  | case4 c d rest hd ih =>
    rw [Bool.and_eq_true] at h
    exact List.forall_mem_cons.2 ⟨.inl h.1, ih h.2⟩

theorem exists_digit_of_areDigits (h : areDigits digit ds) :
    ∃ c rest, ds = c :: rest ∧ digit c := by
  fun_induction areDigits digit ds with
  | case1 => simp at h
  | case2 c => exact ⟨c, _, rfl, h⟩
  | case3 c rest => exact ⟨c, _, rfl, (Bool.and_eq_true_iff.1 h).1⟩
  | case4 c d rest => exact ⟨c, _, rfl, (Bool.and_eq_true_iff.1 h).1⟩

theorem areDigits_eq_false {c : Char} (hc : ¬ digit c) (ds : List Char) :
    areDigits digit (c :: ds) = false := by
  rw [Bool.eq_false_iff]
  intro h
  obtain ⟨d, rest, heq, hd⟩ := exists_digit_of_areDigits h
  cases heq
  exact hc hd

end AreDigits

/-! ### Runs of digits -/

/-- How many characters at the front of a text go on with digits, with single underscores between
them or not. -/
def runLength (digit : Char → Bool) : List Char → Nat
  | [] => 0
  | '_' :: c :: rest => if digit c then runLength digit rest + 2 else 0
  | c :: rest => if digit c then runLength digit rest + 1 else 0

section Runs

variable {digit : Char → Bool}

theorem runLength_le (ds : List Char) : runLength digit ds ≤ ds.length := by
  fun_induction runLength digit ds with
  | case1 => exact Nat.le_refl 0
  | case2 d rest hd ih =>
    simp only [List.length_cons]
    omega
  | case3 d rest hd => exact Nat.zero_le _
  | case4 d rest hrest hd ih =>
    simp only [List.length_cons]
    omega
  | case5 d rest hrest hd => exact Nat.zero_le _

theorem runLength_cons_of_not {c : Char} (hc : digit c = false) (hmark : c ≠ '_')
    (rest : List Char) : runLength digit (c :: rest) = 0 := by
  rw [runLength, if_neg (by simp [hc])]
  intro d tail heq
  exact absurd heq hmark

variable (hdigit : digit '_' = false)

include hdigit

theorem ne_underscore {d : Char} (hd : digit d) : d ≠ '_' := by
  rintro rfl
  simp [hdigit] at hd

theorem runLength_cons {d : Char} (hd : digit d) (rest : List Char) :
    runLength digit (d :: rest) = runLength digit rest + 1 := by
  rw [runLength, if_pos hd]
  intro c tail heq
  exact absurd heq (ne_underscore hdigit hd)

/-- A text consists of digits if it begins with one and goes on with digits throughout. -/
theorem areDigits_cons_iff {c : Char} {ds : List Char} :
    areDigits digit (c :: ds) ↔ digit c ∧ runLength digit ds = ds.length := by
  fun_induction runLength digit ds generalizing c with
  | case1 => simp [areDigits]
  | case2 d rest hd ih => simp [areDigits, ih, hd]
  | case3 d rest hd => simp [areDigits, areDigits_eq_false hd]
  | case4 d rest hrest hd ih =>
    have hne : d ≠ '_' := ne_underscore hdigit hd
    simp [areDigits, ih, hd]
  | case5 d rest hrest hd =>
    by_cases hmark : d = '_'
    · subst hmark
      cases rest with
      | nil => simp [areDigits]
      | cons d rest => exact (hrest d rest rfl rfl).elim
    · simp [areDigits, areDigits_eq_false hd]

/-- Only the run itself matters for its length. -/
theorem runLength_take (ds : List Char) :
    runLength digit (ds.take (runLength digit ds)) = runLength digit ds := by
  fun_induction runLength digit ds with
  | case1 => rfl
  | case2 d rest hd ih => simp [runLength, hd, ih]
  | case3 d rest hd => rfl
  | case4 d rest hrest hd ih => rw [List.take_succ_cons, runLength_cons hdigit hd, ih]
  | case5 d rest hrest hd => rfl

theorem areDigits_take {c : Char} (hc : digit c) (ds : List Char) :
    areDigits digit (c :: ds.take (runLength digit ds)) := by
  rw [areDigits_cons_iff hdigit, runLength_take hdigit, List.length_take]
  exact ⟨hc, (Nat.min_eq_left (runLength_le ds)).symm⟩

/-- A run ends in front of what is no digit. -/
theorem runLength_append {ds rest : List Char} (h : runLength digit ds = ds.length)
    (hrest : ∀ n ∈ rest.head?, digit n = false ∧ n ≠ '_') :
    runLength digit (ds ++ rest) = ds.length := by
  fun_induction runLength digit ds with
  | case1 =>
    cases rest with
    | nil => rfl
    | cons n rest =>
      obtain ⟨hn, hmark⟩ := hrest n rfl
      exact runLength_cons_of_not hn hmark rest
  | case2 d ds hd ih =>
    simp only [List.length_cons, Nat.add_right_cancel_iff] at h
    simp [runLength, hd, ih h]
  | case3 d ds hd => simp at h
  | case4 d ds hds hd ih =>
    simp only [List.length_cons, Nat.add_right_cancel_iff] at h
    rw [List.cons_append, runLength_cons hdigit hd, ih h, List.length_cons]
  | case5 d ds hds hd => simp at h

end Runs

end Literal

/-! ### Whole numbers of the grammar -/

namespace Syntax.Lexeme

open Literal

/-- The end of the whole number that begins at an offset. -/
def wholeEnd? (text : Chars) (i : Nat) : Option Nat :=
  (longer (radixEnd? text i) (digitsEnd? text Char.isDigit i)).map (withBigMark text)

/-- What stands at an offset stands at the front of the text from there on. -/
theorem getElem?_of_drop {text rest : List Char} {i : Nat} (h : text.drop i = rest) (k : Nat) :
    text.toArray[i + k]? = rest[k]? := by
  rw [List.getElem?_toArray, ← h, List.getElem?_drop]

section Digits

variable {digit : Char → Bool} {text rest : List Char} {i : Nat}

/-- Digits are read as far as the run goes. -/
theorem digitsRest_eq (hdigit : digit '_' = false) (n : Nat) (hdrop : text.drop i = rest)
    (hn : rest.length ≤ n) : digitsRest text.toArray digit n i = i + runLength digit rest := by
  induction n generalizing i rest with
  | zero =>
    obtain rfl : rest = [] := List.eq_nil_of_length_eq_zero (Nat.le_zero.1 hn)
    rfl
  | succ n ih =>
    have hfirst : text.toArray[i]? = rest[0]? := getElem?_of_drop hdrop 0
    have hsecond : text.toArray[i + 1]? = rest[1]? := getElem?_of_drop hdrop 1
    have hdropOne : text.drop (i + 1) = rest.drop 1 := by rw [← hdrop, List.drop_drop]
    have hdropTwo : text.drop (i + 2) = rest.drop 2 := by rw [← hdrop, List.drop_drop]
    rw [digitsRest, hfirst]
    fun_cases runLength digit rest with
    | case1 => rfl
    | case2 c rest hc =>
      have hlength : rest.length ≤ n := by
        simp only [List.length_cons] at hn
        omega
      simp only [List.getElem?_cons_zero, hsecond, List.getElem?_cons_succ, Option.any_some, hc,
        if_true]
      rw [ih hdropTwo hlength, List.drop_succ_cons, List.drop_succ_cons, List.drop_zero]
      omega
    | case3 c rest hc => simp [hsecond, hc]
    | case4 c rest hrest hc =>
      have hlength : rest.length ≤ n := by
        simp only [List.length_cons] at hn
        omega
      have hne : c ≠ '_' := ne_underscore hdigit hc
      simp only [List.getElem?_cons_zero, hc, if_true]
      rw [ih hdropOne hlength, List.drop_succ_cons, List.drop_zero]
      omega
    | case5 c rest hrest hc =>
      by_cases hmark : c = '_'
      · subst hmark
        cases rest with
        | nil => simp [hsecond]
        | cons d rest => exact (hrest d rest rfl rfl).elim
      · simp [hc]

theorem digitsEnd?_eq (hdigit : digit '_' = false) {c : Char} (hdrop : text.drop i = c :: rest) :
    digitsEnd? text.toArray digit i =
      if digit c then some (i + 1 + runLength digit rest) else none := by
  have hfirst : text.toArray[i]? = some c := getElem?_of_drop hdrop 0
  have hdropOne : text.drop (i + 1) = rest := by
    rw [← List.drop_drop, hdrop, List.drop_succ_cons, List.drop_zero]
  have hlength : rest.length ≤ text.toArray.size - i := by
    have := congrArg List.length hdrop
    simp only [List.length_drop, List.length_cons] at this
    rw [List.size_toArray]
    omega
  rw [digitsEnd?, hfirst, Option.any_some, digitsRest_eq hdigit _ hdropOne hlength]

/-- What digits are read from begins with a digit. -/
theorem exists_digit_of_digitsEnd? (hdigit : digit '_' = false) {j : Nat}
    (h : digitsEnd? text.toArray digit i = some j) :
    ∃ c rest, text.drop i = c :: rest ∧ digit c ∧ j = i + 1 + runLength digit rest := by
  cases hdrop : text.drop i with
  | nil =>
    have hfirst : text.toArray[i]? = none := getElem?_of_drop hdrop 0
    rw [digitsEnd?, hfirst] at h
    simp at h
  | cons c rest =>
    rw [digitsEnd?_eq hdigit hdrop] at h
    split at h
    · next hc => exact ⟨c, rest, rfl, hc, (Option.some.inj h).symm⟩
    · cases h

end Digits

section Radix

variable {r : Radix}

/-- A number with the mark of its base ends where its digits end. -/
theorem radixEnd?_mark (h : r ≠ .decimal) (upper : Bool) (ds : List Char) :
    radixEnd? (r.mark upper ++ ds).toArray 0 =
      digitsEnd? (r.mark upper ++ ds).toArray r.isDigit 2 := by
  cases r with
  | decimal => exact absurd rfl h
  | _ => cases upper <;> simp [radixEnd?, eitherAt, Radix.mark, Radix.isDigit]

/-- A number that announces its base has the mark of one. -/
theorem exists_mark_of_radixEnd? {text : List Char} {j : Nat}
    (h : radixEnd? text.toArray 0 = some j) : ∃ (r : Radix) (upper : Bool) (ds : List Char),
      r ≠ .decimal ∧ text = r.mark upper ++ ds ∧ digitsEnd? text.toArray r.isDigit 2 = some j := by
  have hshape : ∀ {a b : Char}, text.toArray[0]? = some '0' →
      eitherAt text.toArray a b 1 →
        text = '0' :: a :: text.drop 2 ∨ text = '0' :: b :: text.drop 2 := by
    intro a b hzero hletter
    match text, hzero, hletter with
    | [], hzero, _ => simp at hzero
    | [c], hzero, hletter => simp [eitherAt] at hletter
    | c :: d :: rest, hzero, hletter =>
      simp only [eitherAt, List.getElem?_toArray, List.getElem?_cons_zero, List.getElem?_cons_succ,
        Option.some.injEq, Bool.or_eq_true, decide_eq_true_eq] at hzero hletter
      rcases hletter with rfl | rfl
      · exact .inl (by simp [hzero])
      · exact .inr (by simp [hzero])
  rw [radixEnd?] at h
  split at h
  · next hzero =>
    split at h
    · next hletter =>
      rcases hshape hzero hletter with heq | heq
      · exact ⟨.hexadecimal, false, text.drop 2, by decide, heq, h⟩
      · exact ⟨.hexadecimal, true, text.drop 2, by decide, heq, h⟩
    · split at h
      · next hletter =>
        rcases hshape hzero hletter with heq | heq
        · exact ⟨.octal, false, text.drop 2, by decide, heq, h⟩
        · exact ⟨.octal, true, text.drop 2, by decide, heq, h⟩
      · split at h
        · next hletter =>
          rcases hshape hzero hletter with heq | heq
          · exact ⟨.binary, false, text.drop 2, by decide, heq, h⟩
          · exact ⟨.binary, true, text.drop 2, by decide, heq, h⟩
        · cases h
  · cases h

/-- In front of the letter of a mark, there is one decimal digit. -/
theorem digitsEnd?_mark (h : r ≠ .decimal) (upper : Bool) (ds : List Char) :
    digitsEnd? (r.mark upper ++ ds).toArray Char.isDigit 0 = some 1 := by
  obtain ⟨c, hc, hdigit, hne, -⟩ := mark_eq h upper
  have hdrop : (r.mark upper ++ ds).drop 0 = '0' :: c :: ds := by rw [hc]; rfl
  rw [digitsEnd?_eq (by decide) hdrop, if_pos (by decide), runLength_cons_of_not hdigit hne]

end Radix

section Bounds

variable {text : Chars} {i j : Nat}

theorem digitsRest_le (text : Chars) (digit : Char → Bool) : ∀ n i : Nat, i ≤ text.size →
    digitsRest text digit n i ≤ text.size := by
  intro n
  induction n with
  | zero =>
    intro i h
    exact h
  | succ n ih =>
    intro i h
    rw [digitsRest]
    split
    · split
      · next hnext =>
        obtain ⟨c, hc, -⟩ := (Option.any_eq_true _ _).1 hnext
        obtain ⟨hlt, -⟩ := Array.getElem?_eq_some_iff.1 hc
        exact ih (i + 2) hlt
      · exact h
    · next hc =>
      obtain ⟨hlt, -⟩ := Array.getElem?_eq_some_iff.1 hc
      split
      · exact ih (i + 1) hlt
      · exact h
    · exact h

theorem digitsEnd?_le {digit : Char → Bool} (h : digitsEnd? text digit i = some j) :
    j ≤ text.size := by
  unfold digitsEnd? at h
  split at h
  · next hfirst =>
    obtain ⟨c, hc, -⟩ := (Option.any_eq_true _ _).1 hfirst
    obtain ⟨hlt, -⟩ := Array.getElem?_eq_some_iff.1 hc
    cases h
    exact digitsRest_le text digit _ (i + 1) hlt
  · cases h

theorem getD_digitsEnd?_le (digit : Char → Bool) (h : i ≤ text.size) (j : Nat) :
    (digitsEnd? text digit j).getD i ≤ text.size := by
  cases hd : digitsEnd? text digit j with
  | none => exact h
  | some k => exact digitsEnd?_le hd

theorem exponentEnd_le (h : i ≤ text.size) : exponentEnd text i ≤ text.size := by
  unfold exponentEnd
  split
  · exact getD_digitsEnd?_le _ h _
  · exact h

theorem wholePartEnd?_le (h : wholePartEnd? text i = some j) : j ≤ text.size := by
  unfold wholePartEnd? at h
  simp only at h
  split at h
  · exact digitsEnd?_le h
  · split at h
    · next hzero =>
      obtain ⟨hlt, -⟩ := Array.getElem?_eq_some_iff.1 hzero
      split at h
      · exact digitsEnd?_le h
      · cases h
        exact hlt
    · cases h

theorem decimalEnd?_le (h : decimalEnd? text i = some j) : j ≤ text.size := by
  have fraction : ∀ k < text.size,
      exponentEnd text ((digitsEnd? text Char.isDigit (k + 1)).getD (k + 1)) ≤ text.size :=
    fun k hk => exponentEnd_le (getD_digitsEnd?_le _ hk _)
  unfold decimalEnd? at h
  simp only at h
  split at h
  · next k hk =>
    split at h
    · next hpoint =>
      obtain ⟨hlt, -⟩ := Array.getElem?_eq_some_iff.1 hpoint
      cases h
      exact fraction k hlt
    · cases h
      exact exponentEnd_le (wholePartEnd?_le hk)
  · split at h
    · next hpoint =>
      rw [Bool.and_eq_true, decide_eq_true_eq] at hpoint
      obtain ⟨hlt, -⟩ := Array.getElem?_eq_some_iff.1 hpoint.1
      rw [← Option.some.inj h]
      exact fraction i hlt
    · cases h

/-- A whole number that goes to the end of the text is all of the number that begins there. -/
theorem numberEnd?_of_wholeEnd? (h : wholeEnd? text i = some text.size) :
    numberEnd? text i = some text.size := by
  have hlonger : numberEnd? text i = longer (wholeEnd? text i) (decimalEnd? text i) := rfl
  rw [hlonger, h]
  cases hd : decimalEnd? text i with
  | none => rfl
  | some k => exact congrArg some (Nat.max_eq_left (decimalEnd?_le hd))

end Bounds

end Syntax.Lexeme

/-! ### Numerals and whole numbers -/

namespace Literal

open Lexeme

/-- Whether a zero stands in front of other digits. -/
def isPadded (text : List Char) : Bool :=
  text.head? = some '0' && (text[1]?).any fun c => c.isDigit || c = '_'

/-- What may follow the digits of a numeral does not go on with them. -/
theorem head?_bigMark (r : Radix) (big : Bool) :
    ∀ n ∈ (if big then ['n'] else []).head?, r.isDigit n = false ∧ n ≠ '_' := by
  intro n hn
  cases big with
  | false => cases hn
  | true =>
    obtain rfl : 'n' = n := Option.some.inj hn
    cases r <;> decide

theorem withBigMark_append (ds : List Char) (big : Bool) :
    withBigMark (ds ++ if big then ['n'] else []).toArray ds.length =
      (ds ++ if big then ['n'] else []).length := by
  cases big <;> simp [withBigMark]

/-- A whole number that goes to the end of the text consists of its digits and the mark of a big
integer, if it has one. -/
theorem eq_append_of_withBigMark {text : List Char} {j : Nat}
    (h : withBigMark text.toArray j = text.length) :
    ∃ big : Bool, text = text.take j ++ if big then ['n'] else [] := by
  unfold withBigMark at h
  split at h
  · next hn =>
    have hlast : text[j]? = some 'n' := by rwa [List.getElem?_toArray] at hn
    have hdrop : text.drop j = ['n'] := by
      obtain ⟨hlt, hget⟩ := List.getElem?_eq_some_iff.1 hlast
      rw [List.drop_eq_getElem_cons hlt, hget, List.drop_eq_nil_of_le (by omega)]
    refine ⟨true, ?_⟩
    rw [if_pos rfl, ← hdrop, List.take_append_drop]
  · refine ⟨false, ?_⟩
    rw [if_neg Bool.false_ne_true, List.append_nil, h, List.take_length]

namespace Numeral

variable (l : Numeral)

/-- The digits of a numeral are read to their end. -/
theorem digitsEnd?_text : digitsEnd? l.text.toArray l.radix.isDigit (l.radix.mark l.upper).length =
    some ((l.radix.mark l.upper).length + l.digits.length) := by
  obtain ⟨c, rest, hds, hc⟩ := exists_digit_of_areDigits l.areDigits
  have hunderscore := l.radix.isDigit_underscore
  have hrun : runLength l.radix.isDigit rest = rest.length :=
    ((areDigits_cons_iff hunderscore).1 (hds ▸ l.areDigits)).2
  have hdrop : l.text.drop (l.radix.mark l.upper).length =
      c :: (rest ++ if l.big then ['n'] else []) := by
    rw [text, List.append_assoc, List.drop_left, hds, List.cons_append]
  rw [digitsEnd?_eq hunderscore hdrop, if_pos hc,
    runLength_append hunderscore hrun (head?_bigMark _ _), hds, List.length_cons]
  exact congrArg some (by omega)

theorem isPadded_text : isPadded l.text = false := by
  cases hr : l.radix with
  | decimal =>
    obtain ⟨c, rest, hds, -⟩ := exists_digit_of_areDigits l.areDigits
    by_cases hzero : c = '0'
    · have hrest : l.digits = ['0'] := l.unpadded hr (by rw [hds, hzero]; rfl)
      rw [isPadded, text, hr, hrest]
      cases l.big <;> rfl
    · simp [isPadded, text, hr, Radix.mark, hds, hzero]
  | _ =>
    rw [isPadded, text, hr]
    cases l.upper <;> simp [Radix.mark]

/-- The mark of a base is not what a decimal numeral begins with. -/
theorem radixEnd?_of_decimal (h : l.radix = .decimal) : radixEnd? l.text.toArray 0 = none := by
  rw [Option.eq_none_iff_forall_not_mem]
  intro j hj
  obtain ⟨r, upper, ds, hr, htext, -⟩ := exists_mark_of_radixEnd? hj
  obtain ⟨c, hc, -, -, hletter⟩ := mark_eq hr upper
  have hcons : l.text = '0' :: c :: ds := by rw [htext, hc]; rfl
  obtain ⟨d, rest, hds, -⟩ := exists_digit_of_areDigits l.areDigits
  have hdigits : l.text = l.digits ++ if l.big then ['n'] else [] := by
    rw [text, h]
    rfl
  have hzero : l.digits = ['0'] := by
    refine l.unpadded h ?_
    rw [hdigits, hds, List.cons_append, List.cons.injEq] at hcons
    rw [hds, hcons.1]
    rfl
  rw [hdigits, hzero] at hcons
  cases hbig : l.big with
  | true =>
    simp only [hbig, if_true, List.cons_append, List.nil_append, List.cons.injEq, true_and] at hcons
    exact hletter hcons.1.symm
  | false => simp [hbig] at hcons

/-- A numeral is a whole number to its end. -/
theorem wholeEnd?_text : wholeEnd? l.text.toArray 0 = some l.text.length := by
  have hlength : (l.radix.mark l.upper).length + l.digits.length =
      (l.radix.mark l.upper ++ l.digits).length := List.length_append.symm
  have hdigits := l.digitsEnd?_text
  rw [hlength] at hdigits
  have hend : longer (radixEnd? l.text.toArray 0) (digitsEnd? l.text.toArray Char.isDigit 0) =
      some (l.radix.mark l.upper ++ l.digits).length := by
    by_cases hr : l.radix = .decimal
    · rw [l.radixEnd?_of_decimal hr]
      simp only [hr] at hdigits ⊢
      exact hdigits
    · have htext : l.text = l.radix.mark l.upper ++ (l.digits ++ if l.big then ['n'] else []) :=
        List.append_assoc _ _ _
      have hone : 1 ≤ (l.radix.mark l.upper ++ l.digits).length := by
        rw [← hlength, length_mark hr]
        omega
      rw [length_mark hr, htext, ← radixEnd?_mark hr] at hdigits
      rw [htext, hdigits, digitsEnd?_mark hr]
      exact congrArg some (Nat.max_eq_left hone)
  rw [wholeEnd?, hend, Option.map_some]
  exact congrArg some (withBigMark_append _ _)

/-- A numeral is a number to its end. -/
theorem numberEnd?_text : numberEnd? l.text.toArray 0 = some l.text.length :=
  numberEnd?_of_wholeEnd? l.wholeEnd?_text

end Numeral

/-- Digits that are not padded end after a zero. -/
theorem runLength_eq_zero_of_isPadded {rest : List Char} (h : isPadded ('0' :: rest) = false) :
    runLength Char.isDigit rest = 0 := by
  cases rest with
  | nil => rfl
  | cons c rest =>
    have hc : c.isDigit = false ∧ c ≠ '_' := by simpa [isPadded] using h
    exact runLength_cons_of_not hc.1 hc.2 rest

/-- A whole number that goes to the end of the text and is not padded is a numeral. -/
theorem exists_numeral_of_wholeEnd? {text : List Char}
    (h : wholeEnd? text.toArray 0 = some text.length) (hpadded : isPadded text = false) :
    ∃ l : Numeral, l.text = text := by
  obtain ⟨k, hk, hbig⟩ := Option.map_eq_some_iff.1 h
  obtain ⟨big, heq⟩ := eq_append_of_withBigMark hbig
  cases hradix : radixEnd? text.toArray 0 with
  | some j =>
    obtain ⟨r, upper, ds, hr, htext, hdigits⟩ := exists_mark_of_radixEnd? hradix
    have hunderscore := r.isDigit_underscore
    obtain ⟨c, rest, hdrop, hc, hj⟩ := exists_digit_of_digitsEnd? hunderscore hdigits
    have hds : ds = c :: rest := by rw [← hdrop, htext, ← length_mark hr upper, List.drop_left]
    have hone : digitsEnd? text.toArray Char.isDigit 0 = some 1 := by
      rw [htext]
      exact digitsEnd?_mark hr upper ds
    have hkj : k = (r.mark upper).length + (runLength r.isDigit rest + 1) := by
      rw [hradix, hone] at hk
      simp only [longer, Option.some.injEq] at hk
      rw [length_mark hr]
      omega
    have htake : text.take k = r.mark upper ++ c :: rest.take (runLength r.isDigit rest) := by
      rw [htext, hds, hkj, List.take_length_add_append, List.take_succ_cons]
    let l : Numeral :=
      { radix := r
        upper := upper
        digits := c :: rest.take (runLength r.isDigit rest)
        big := big
        areDigits := areDigits_take hunderscore hc rest
        unpadded := fun hdecimal => absurd hdecimal hr }
    have hl : l.text = text.take k ++ if big then ['n'] else [] := by
      rw [htake]
      rfl
    exact ⟨l, hl.trans heq.symm⟩
  | none =>
    rw [hradix] at hk
    obtain ⟨c, rest, hdrop, hc, hj⟩ := exists_digit_of_digitsEnd? (by decide) hk
    rw [List.drop_zero] at hdrop
    have hzero : c = '0' → rest.take (runLength Char.isDigit rest) = [] := by
      rintro rfl
      rw [runLength_eq_zero_of_isPadded (hdrop ▸ hpadded), List.take_zero]
    have htake : text.take k = c :: rest.take (runLength Char.isDigit rest) := by
      rw [hdrop, hj, Nat.zero_add, Nat.add_comm, List.take_succ_cons]
    let l : Numeral :=
      { radix := .decimal
        upper := false
        digits := c :: rest.take (runLength Char.isDigit rest)
        big := big
        areDigits := areDigits_take Radix.decimal.isDigit_underscore hc rest
        unpadded := fun _ hhead => by
          obtain rfl : c = '0' := Option.some.inj hhead
          rw [hzero rfl] }
    have htext : l.text = text.take k ++ if big then ['n'] else [] := by
      rw [htake]
      rfl
    exact ⟨l, htext.trans heq.symm⟩

/-- **Numerals are the whole numbers of the grammar**, but for those with a zero too many. -/
theorem exists_numeral_iff {text : List Char} : (∃ l : Numeral, l.text = text) ↔
    wholeEnd? text.toArray 0 = some text.length ∧ isPadded text = false := by
  constructor
  · rintro ⟨l, rfl⟩
    exact ⟨l.wholeEnd?_text, l.isPadded_text⟩
  · rintro ⟨hwhole, hpadded⟩
    exact exists_numeral_of_wholeEnd? hwhole hpadded

end Literal

end FlowAnalysis
