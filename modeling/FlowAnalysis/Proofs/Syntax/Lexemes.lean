import FlowAnalysis.Syntax.Lexeme

/-!
# Lexemes take up room

The functions that look for the end of a lexeme go forward, and those that find a lexeme go forward
by at least one character.  Comments end inside the text.

## Main results

* `lt_wordEnd?`, `lt_numberEnd?`, `lt_escapeEnd?`, `lt_regexEnd?` — the lexemes of the grammar.
* `lt_commentEnd?`, `commentEnd?_le` — comments.
-/

namespace FlowAnalysis.Syntax.Lexeme

/-! ### Runs of characters -/

theorem le_skipWhile (text : Chars) (inside : Char → Bool) : ∀ n i : Nat,
    i ≤ skipWhile text inside n i := by
  intro n
  induction n with
  | zero => intro i; exact Nat.le_refl i
  | succ n ih =>
    intro i
    rw [skipWhile]
    split
    · split
      · exact Nat.le_of_succ_le (ih (i + 1))
      · exact Nat.le_refl i
    · exact Nat.le_refl i

theorem skipWhile_le (text : Chars) (inside : Char → Bool) : ∀ n i : Nat,
    skipWhile text inside n i ≤ i + n := by
  intro n
  induction n with
  | zero => intro i; exact Nat.le_refl i
  | succ n ih =>
    intro i
    rw [skipWhile]
    split
    · split
      · have := ih (i + 1)
        omega
      · omega
    · omega

theorem le_runEnd (text : Chars) (inside : Char → Bool) (i : Nat) : i ≤ runEnd text inside i :=
  le_skipWhile text inside _ i

theorem runEnd_le (text : Chars) (inside : Char → Bool) {i : Nat} (h : i ≤ text.size) :
    runEnd text inside i ≤ text.size := by
  have := skipWhile_le text inside (text.size - i) i
  unfold runEnd
  omega

theorem le_skipBlanks (text : Chars) (i : Nat) : i ≤ skipBlanks text i := le_runEnd text _ i

/-- A run is not empty where a character of its class stands. -/
theorem lt_runEnd {text : Chars} {inside : Char → Bool} {i : Nat} {c : Char} (h : text[i]? = some c)
    (hc : inside c) : i < runEnd text inside i := by
  obtain ⟨hi, _⟩ := Array.getElem?_eq_some_iff.1 h
  obtain ⟨n, hn⟩ : ∃ n, text.size - i = n + 1 := ⟨text.size - i - 1, by omega⟩
  rw [runEnd, hn, skipWhile, h]
  simp only [hc, if_true]
  exact le_skipWhile text inside n (i + 1)

/-- Characters that stand in a text stand inside it. -/
theorem hasAt_le {text : Chars} : ∀ {part : List Char} {i : Nat}, hasAt text part i → part ≠ [] →
    i + part.length ≤ text.size := by
  intro part
  induction part with
  | nil => intro i _ h; exact absurd rfl h
  | cons c rest ih =>
    intro i h _
    simp only [hasAt, Bool.and_eq_true, decide_eq_true_eq] at h
    obtain ⟨hi, _⟩ := Array.getElem?_eq_some_iff.1 h.1
    by_cases hr : rest = []
    · subst hr
      simp
      omega
    · have := ih h.2 hr
      simp only [List.length_cons]
      omega

/-! ### Comments -/

theorem blockEnd?_bounds {text : Chars} : ∀ {n i j : Nat}, blockEnd? text n i = some j →
    i < j ∧ j ≤ text.size := by
  intro n
  induction n with
  | zero => intro i j h; simp [blockEnd?] at h
  | succ n ih =>
    intro i j h
    rw [blockEnd?] at h
    split at h
    · split at h
      · next hslash =>
        obtain ⟨hi, _⟩ := Array.getElem?_eq_some_iff.1 hslash
        simp only [Option.some.injEq] at h
        omega
      · have := ih h
        omega
    · split at h
      · have := ih h
        omega
      · simp at h
    · simp at h

theorem commentEnd?_bounds {text : Chars} {i j : Nat} (h : commentEnd? text i = some j) :
    i < j ∧ j ≤ text.size := by
  unfold commentEnd? at h
  split at h
  · next hmark =>
    have hsize : i + 2 ≤ text.size := hasAt_le hmark (by simp)
    simp only [Option.some.injEq] at h
    subst h
    exact ⟨Nat.lt_of_lt_of_le (by omega) (le_runEnd text _ (i + 2)), runEnd_le text _ hsize⟩
  · split at h
    · have := blockEnd?_bounds h
      omega
    · simp at h

theorem markupCommentEnd?_bounds {text : Chars} {i j : Nat}
    (h : markupCommentEnd? text i = some j) : i < j ∧ j ≤ text.size := by
  unfold markupCommentEnd? at h
  simp only at h
  split at h
  · next hmark =>
    have hsize : i + 4 ≤ text.size := hasAt_le hmark (by simp)
    simp only [Option.some.injEq] at h
    subst h
    exact ⟨Nat.lt_of_lt_of_le (by omega) (le_runEnd text _ (i + 4)), runEnd_le text _ hsize⟩
  · split at h
    · next hmark =>
      have hsize : i + 3 ≤ text.size := hasAt_le hmark (by simp)
      simp only [Option.some.injEq] at h
      subst h
      exact ⟨Nat.lt_of_lt_of_le (by omega) (le_runEnd text _ (i + 3)), runEnd_le text _ hsize⟩
    · simp at h

/-! ### Words -/

theorem le_hexDigitsEnd? {text : Chars} : ∀ {n i j : Nat}, hexDigitsEnd? text n i = some j →
    i ≤ j := by
  intro n
  induction n with
  | zero => intro i j h; simp_all [hexDigitsEnd?]
  | succ n ih =>
    intro i j h
    rw [hexDigitsEnd?] at h
    split at h
    · split at h
      · exact Nat.le_of_succ_le (ih h)
      · simp at h
    · simp at h

theorem lt_bracedCodeEnd? {text : Chars} {i j : Nat} (h : bracedCodeEnd? text i = some j) :
    i < j := by
  unfold bracedCodeEnd? at h
  split at h
  · simp only at h
    split at h
    · have := le_runEnd text isHexDigit (i + 1)
      simp only [Option.some.injEq] at h
      omega
    · simp at h
  · simp at h

theorem lt_unicodeEscapeEnd? {text : Chars} {i j : Nat} (h : unicodeEscapeEnd? text i = some j) :
    i < j := by
  unfold unicodeEscapeEnd? at h
  split at h
  · rw [Option.or_eq_some_iff] at h
    rcases h with h | ⟨_, h⟩
    · exact Nat.lt_of_succ_lt (lt_bracedCodeEnd? h)
    · exact le_hexDigitsEnd? h
  · simp at h

theorem le_wordRest (text : Chars) : ∀ n i : Nat, i ≤ wordRest text n i := by
  intro n
  induction n with
  | zero => intro i; exact Nat.le_refl i
  | succ n ih =>
    intro i
    rw [wordRest]
    split
    · split
      · next j h => exact Nat.le_trans (Nat.le_of_succ_le (Nat.le_of_lt (lt_unicodeEscapeEnd? h))) (ih j)
      · exact Nat.le_refl i
    · split
      · exact Nat.le_of_succ_le (ih (i + 1))
      · exact Nat.le_refl i
    · exact Nat.le_refl i

theorem lt_wordEnd? {text : Chars} {i j : Nat} (h : wordEnd? text i = some j) : i < j := by
  unfold wordEnd? at h
  split at h
  · obtain ⟨k, hk, rfl⟩ := Option.map_eq_some_iff.1 h
    exact Nat.lt_of_lt_of_le (Nat.lt_of_succ_lt (lt_unicodeEscapeEnd? hk)) (le_wordRest text _ k)
  · split at h
    · simp only [Option.some.injEq] at h
      exact h ▸ le_wordRest text _ (i + 1)
    · simp at h
  · simp at h

/-! ### Numbers -/

theorem le_digitsRest (text : Chars) (digit : Char → Bool) : ∀ n i : Nat,
    i ≤ digitsRest text digit n i := by
  intro n
  induction n with
  | zero => intro i; exact Nat.le_refl i
  | succ n ih =>
    intro i
    rw [digitsRest]
    split
    · split
      · exact Nat.le_trans (by omega) (ih (i + 2))
      · exact Nat.le_refl i
    · split
      · exact Nat.le_of_succ_le (ih (i + 1))
      · exact Nat.le_refl i
    · exact Nat.le_refl i

theorem lt_digitsEnd? {text : Chars} {digit : Char → Bool} {i j : Nat}
    (h : digitsEnd? text digit i = some j) : i < j := by
  unfold digitsEnd? at h
  split at h
  · simp only [Option.some.injEq] at h
    exact h ▸ le_digitsRest text digit _ (i + 1)
  · simp at h

theorem lt_radixEnd? {text : Chars} {i j : Nat} (h : radixEnd? text i = some j) : i < j := by
  unfold radixEnd? at h
  repeat' split at h
  · exact Nat.lt_of_add_right_lt (lt_digitsEnd? h)
  · exact Nat.lt_of_add_right_lt (lt_digitsEnd? h)
  · exact Nat.lt_of_add_right_lt (lt_digitsEnd? h)
  · simp at h
  · simp at h

/-- What may be absent takes no room then. -/
theorem le_getD_digitsEnd? (text : Chars) (digit : Char → Bool) {i j : Nat} (h : i ≤ j) :
    i ≤ (digitsEnd? text digit j).getD i := by
  cases hd : digitsEnd? text digit j with
  | none => exact Nat.le_refl i
  | some k => exact Nat.le_trans h (Nat.le_of_lt (lt_digitsEnd? hd))

theorem le_exponentEnd (text : Chars) (i : Nat) : i ≤ exponentEnd text i := by
  unfold exponentEnd
  split
  · exact le_getD_digitsEnd? text _ (by split <;> omega)
  · exact Nat.le_refl i

theorem lt_wholePartEnd? {text : Chars} {i j : Nat} (h : wholePartEnd? text i = some j) :
    i < j := by
  unfold wholePartEnd? at h
  simp only at h
  split at h
  · exact lt_digitsEnd? h
  · split at h
    · split at h
      · exact Nat.lt_of_succ_lt (lt_digitsEnd? h)
      · simp only [Option.some.injEq] at h
        omega
    · simp at h

theorem lt_decimalEnd? {text : Chars} {i j : Nat} (h : decimalEnd? text i = some j) : i < j := by
  -- The fraction behind the point may be empty.
  have fraction : ∀ k, k ≤ exponentEnd text ((digitsEnd? text Char.isDigit k).getD k) := fun k =>
    Nat.le_trans (le_getD_digitsEnd? text _ (Nat.le_refl k)) (le_exponentEnd text _)
  unfold decimalEnd? at h
  simp only at h
  split at h
  · next k hk =>
    have := lt_wholePartEnd? hk
    split at h
    · simp only [Option.some.injEq] at h
      have := fraction (k + 1)
      omega
    · simp only [Option.some.injEq] at h
      have := le_exponentEnd text k
      omega
  · split at h
    · simp only [Option.some.injEq] at h
      have := fraction (i + 1)
      omega
    · simp at h

theorem lt_longer {i j : Nat} {a b : Option Nat} (ha : ∀ k, a = some k → i < k)
    (hb : ∀ k, b = some k → i < k) (h : longer a b = some j) : i < j := by
  cases a with
  | none => exact hb j h
  | some k =>
    have hk := ha k rfl
    cases b with
    | none => exact ha j h
    | some l =>
      simp only [longer, Option.some.injEq] at h
      omega

theorem lt_numberEnd? {text : Chars} {i j : Nat} (h : numberEnd? text i = some j) : i < j := by
  unfold numberEnd? at h
  refine lt_longer ?_ (fun k => lt_decimalEnd?) h
  intro k hk
  obtain ⟨l, hl, rfl⟩ := Option.map_eq_some_iff.1 hk
  have : i < l := lt_longer (fun _ => lt_radixEnd?) (fun _ => lt_digitsEnd?) hl
  unfold withBigMark
  split <;> omega

/-! ### Strings, templates and regular expressions -/

theorem lt_escapeEnd? {text : Chars} {i j : Nat} (h : escapeEnd? text i = some j) : i < j := by
  unfold escapeEnd? at h
  split at h
  · have := le_hexDigitsEnd? h
    omega
  · exact Nat.lt_of_succ_lt (lt_unicodeEscapeEnd? h)
  · split at h
    · simp only [Option.some.injEq] at h
      exact h ▸ le_skipWhile text _ 3 (i + 1)
    · split at h
      · simp only [Option.some.injEq] at h
        omega
      · split at h
        · simp only [Option.some.injEq] at h
          omega
        · simp at h
  · simp at h

theorem lt_regexEnd? {text : Chars} {i j : Nat} (h : regexEnd? text i = some j) : i < j := by
  unfold regexEnd? at h
  simp only at h
  split at h
  · next hlt =>
    simp only [Option.some.injEq] at h
    omega
  · simp at h

end FlowAnalysis.Syntax.Lexeme
