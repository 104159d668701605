import FlowAnalysis.Json.Reader
import FlowAnalysis.Proofs.Literals.Numbers
import FlowAnalysis.Proofs.Literals.Rendering
import FlowAnalysis.Proofs.StoredRecords

/-!
# Values on one line are read back

The text of a value on one line is a line, and the reader makes of it the value that was written.
Only numbers may become others: a number that does not fit into 64 bits is read as the nearest one
that does.

## Main definitions

* `Json.integral` — all numbers in a value are whole.
* `Json.reread` — what the reader makes of a value that has been written.
* `Json.ReadsBack` — what the reader gets right with some allowance.

## Main results

* `Json.ofText?_compact` — **the reader makes of a line what `reread` says.**
* `Json.reread_of_whole` — numbers that fit into 64 bits stay what they are.
* `Json.newline_not_mem_compact` — a value on one line has no line end in it.
-/

namespace FlowAnalysis.Json

open Decimal (digitsText)

/-! ### Texts in quotes -/

theorem hexValue?_digitChar {d : Nat} (h : d < 16) : hexValue? (Nat.digitChar d) = some d := by
  revert d
  decide

/-- Four hexadecimal digits are read as the number of which they are the digits. -/
theorem readHex4_hex4 {n : Nat} (h : n < 65536) (rest : List Char) :
    readHex4 (hex4 n ++ rest) = some (n, rest) := by
  have hdigit : ∀ m : Nat, hexValue? (Nat.digitChar (m % 16)) = some (m % 16) :=
    fun m => hexValue?_digitChar (Nat.mod_lt m (by decide))
  simp only [hex4, List.map_cons, List.map_nil, List.cons_append, List.nil_append, readHex4, hdigit,
    Option.bind_eq_bind, Option.bind_some, Option.some.injEq, Prod.mk.injEq, and_true]
  omega

/-- What is written for a character is read as the character. -/
theorem readQuoted_escapeChar (n : Nat) (acc : List Unit16) (c : Char) (rest : List Char) :
    readQuoted (n + 1) acc (escapeChar c ++ rest) = readQuoted n (.char c :: acc) rest := by
  have hcode : ∀ {m : Nat}, c.toNat = m → c = Char.ofNat m := by
    rintro _ rfl
    exact (Char.ofNat_toNat c).symm
  -- Seven characters have a letter of their own, the other control characters have their number.
  by_cases hquote : c = '"'
  · subst hquote
    rfl
  by_cases hbackslash : c = '\\'
  · subst hbackslash
    rfl
  by_cases hfeed : c = '\n'
  · subst hfeed
    rfl
  by_cases hreturn : c = '\r'
  · subst hreturn
    rfl
  by_cases htab : c = '\t'
  · subst htab
    rfl
  by_cases hback : c.toNat = 8
  · rw [hcode hback]
    rfl
  by_cases hform : c.toNat = 12
  · rw [hcode hform]
    rfl
  by_cases hcontrol : c.toNat < 32
  · have hescape : escapeChar c = '\\' :: 'u' :: hex4 c.toNat := by
      simp [escapeChar, hquote, hbackslash, hfeed, hreturn, htab, hback, hform, hcontrol]
    have hunit : Unit16.ofNat c.toNat = .char c := by
      rw [Unit16.ofNat, if_neg (by simp; omega), if_neg (by simp; omega), Char.ofNat_toNat]
    rw [hescape, List.cons_append, List.cons_append, readQuoted, readHex4_hex4 (by omega)]
    show readQuoted n (Unit16.ofNat c.toNat :: acc) rest = _
    rw [hunit]
  · have hescape : escapeChar c = [c] := by
      simp [escapeChar, hquote, hbackslash, hfeed, hreturn, htab, hback, hform, hcontrol]
    rw [hescape, List.singleton_append]
    simp [readQuoted, hbackslash, hcontrol]

theorem readQuoted_flatMap {cs : List Char} (n : Nat) (acc : List Unit16) (rest : List Char)
    (h : cs.length < n) : readQuoted n acc (cs.flatMap escapeChar ++ '"' :: rest) =
      some ((cs.map .char).reverse ++ acc, rest) := by
  induction cs generalizing n acc with
  | nil =>
    obtain ⟨n, rfl⟩ := Nat.exists_eq_add_one_of_ne_zero (Nat.ne_of_gt h)
    rfl
  | cons c cs ih =>
    rw [List.length_cons] at h
    obtain ⟨n, rfl⟩ := Nat.exists_eq_add_one_of_ne_zero (show n ≠ 0 by omega)
    rw [List.flatMap_cons, List.append_assoc, readQuoted_escapeChar, ih n _ (by omega)]
    simp

theorem joinUnits_map_char (cs : List Char) : joinUnits (cs.map .char) = some cs := by
  induction cs with
  | nil => rfl
  | cons c cs ih =>
    rw [List.map_cons, joinUnits, ih]
    rfl

theorem escapeChar_ne_nil (c : Char) : escapeChar c ≠ [] := by
  unfold escapeChar
  repeat' split
  all_goals simp

theorem length_le_flatMap_escapeChar (cs : List Char) :
    cs.length ≤ (cs.flatMap escapeChar).length := by
  induction cs with
  | nil => exact Nat.le_refl _
  | cons c cs ih =>
    have hpos := List.length_pos_of_ne_nil (escapeChar_ne_nil c)
    rw [List.flatMap_cons, List.length_append, List.length_cons]
    omega

/-- **A text in quotes is read as the text.** -/
theorem readString_flatMap (s : String) (rest : List Char) :
    readString (s.toList.flatMap escapeChar ++ '"' :: rest) = some (some s, rest) := by
  have hlength := length_le_flatMap_escapeChar s.toList
  rw [readString, readQuoted_flatMap _ _ _ (by rw [List.length_append]; omega)]
  simp [joinUnits_map_char]

theorem quote_append (s : String) (rest : List Char) :
    quote s ++ rest = '"' :: (s.toList.flatMap escapeChar ++ '"' :: rest) := by
  simp [quote]

/-! ### Numbers -/

/-- What may follow a value: the end, or what stands between the values of a list or behind it. -/
def Closed (rest : List Char) : Prop := ∀ c ∈ rest.head?, c = ',' ∨ c = ']' ∨ c = '\x7d'

theorem spanDigits_digitsText (n : Nat) {rest : List Char} (h : Closed rest) :
    spanDigits (digitsText n ++ rest) = (digitsText n, rest) := by
  have hrest : rest.takeWhile Char.isDigit = [] ∧ rest.dropWhile Char.isDigit = rest := by
    cases rest with
    | nil => exact ⟨rfl, rfl⟩
    | cons c rest => rcases h c rfl with rfl | rfl | rfl <;> exact ⟨rfl, rfl⟩
  have hdigits : ∀ c ∈ digitsText n, c.isDigit := fun c => isDigit_of_mem_digitsText
  rw [spanDigits, List.span_eq_takeWhile_dropWhile, List.takeWhile_append_of_pos hdigits,
    List.dropWhile_append_of_pos hdigits, hrest.1, hrest.2, List.append_nil]

/-- What the reader makes of a whole number. -/
def rereadNatural (negative : Bool) (n : Nat) : Json :=
  wholeNumber negative (keepWhole ⟨0, 0⟩ (digitsText n))

theorem readNumber_digitsText (negative : Bool) (n : Nat) {rest : List Char} (h : Closed rest) :
    readNumber negative (digitsText n ++ rest) = some (rereadNatural negative n, rest) := by
  unfold readNumber
  rw [spanDigits_digitsText n h]
  dsimp only
  split
  · next hnil => exact absurd hnil Nat.toDigits_ne_nil
  · next d ds hzero =>
    -- Only zero itself begins with zero.
    rcases Nat.eq_zero_or_pos n with rfl | hpos
    · cases hzero
    · refine absurd ?_ (Records.head?_toDigits (Nat.ne_of_gt hpos))
      exact congrArg List.head? hzero
  · cases rest with
    | nil => rfl
    | cons c rest => rcases h c rfl with rfl | rfl | rfl <;> rfl

theorem le_ofDigitChars (digits : List Char) (k : Nat) : k ≤ Nat.ofDigitChars 10 digits k := by
  induction digits generalizing k with
  | nil => exact Nat.le_refl _
  | cons c digits ih =>
    have hstep := ih (10 * k + (c.toNat - '0'.toNat))
    rw [Nat.ofDigitChars_cons]
    omega

/-- Digits are kept as long as their number fits. -/
theorem keepWhole_of_le {digits : List Char} {k : Nat}
    (h : Nat.ofDigitChars 10 digits k ≤ maxKept) :
    keepWhole ⟨k, 0⟩ digits = ⟨Nat.ofDigitChars 10 digits k, 0⟩ := by
  induction digits generalizing k with
  | nil => rfl
  | cons c digits ih =>
    rw [Nat.ofDigitChars_cons, Nat.mul_comm] at h ⊢
    have hkept := le_ofDigitChars digits (k * 10 + (c.toNat - '0'.toNat))
    rw [keepWhole, if_pos]
    · exact ih h
    · rw [decide_eq_true rfl, Bool.true_and, decide_eq_true_eq]
      exact Nat.le_trans hkept h

theorem keepWhole_digitsText {n : Nat} (h : n ≤ maxKept) :
    keepWhole ⟨0, 0⟩ (digitsText n) = ⟨n, 0⟩ := by
  have hvalue : Nat.ofDigitChars 10 (digitsText n) 0 = n := Nat.ofDigitChars_ten_toDigits
  rw [keepWhole_of_le (by rwa [hvalue]), hvalue]

/-! ### Values -/

mutual

/-- Whether all numbers in a value are whole. -/
def integral : Json → Bool
  | number (.float _) | meaningless => false
  | array items => integralItems items
  | object entries => integralEntries entries
  | _ => true

/-- Whether all numbers in some values are whole. -/
def integralItems : List Json → Bool
  | [] => true
  | v :: rest => integral v && integralItems rest

/-- Whether all numbers in the values of some entries are whole. -/
def integralEntries : List (String × Json) → Bool
  | [] => true
  | (_, v) :: rest => integral v && integralEntries rest

end

mutual

/-- What the reader makes of a value that has been written, if its numbers are whole. -/
def reread : Json → Json
  | number (.int (.ofNat n)) => rereadNatural false n
  | number (.int (.negSucc n)) => rereadNatural true (n + 1)
  | array items => .array (rereadItems items)
  | object entries => .object (rereadEntries entries)
  | v => v

/-- What the reader makes of some values. -/
def rereadItems : List Json → List Json
  | [] => []
  | v :: rest => reread v :: rereadItems rest

/-- What the reader makes of some entries. -/
def rereadEntries : List (String × Json) → List (String × Json)
  | [] => []
  | (k, v) :: rest => (k, reread v) :: rereadEntries rest

end

theorem integralItems_iff {vs : List Json} : integralItems vs ↔ ∀ v ∈ vs, v.integral := by
  induction vs with
  | nil => simp [integralItems]
  | cons v vs ih => simp [integralItems, ih]

/-- Reading back keeps the names of entries. -/
theorem get?_rereadEntries (es : List (String × Json)) (name : String) :
    Keyed.get? (rereadEntries es) name = (Keyed.get? es name).map reread := by
  induction es with
  | nil => rfl
  | cons e es ih =>
    rw [rereadEntries, Keyed.get?_cons, Keyed.get?_cons, ih]
    split <;> rfl

/-! The equations of a text are stated one by one: rewriting with the definition would go through its
words. -/

theorem compactTo_natural (n : Nat) (rest : List Char) :
    compactTo (.number (.int (.ofNat n))) rest = digitsText n ++ rest := rfl

theorem compactTo_string (s : String) (rest : List Char) :
    compactTo (.string s) rest = quote s ++ rest := rfl

theorem compactTo_array_cons (v : Json) (vs : List Json) (rest : List Char) :
    compactTo (.array (v :: vs)) rest = '[' :: compactTo v (compactItems vs (']' :: rest)) := rfl

theorem compactTo_object_cons (k : String) (v : Json) (es : List (String × Json))
    (rest : List Char) : compactTo (.object ((k, v) :: es)) rest =
      '\x7b' :: (quote k ++ ':' :: compactTo v (compactEntries es ('\x7d' :: rest))) := rfl

/-- A character with which a value may begin. -/
structure Begins (c : Char) : Prop where
  not_gap : isGap c = false
  ne_bracket : c ≠ ']'

theorem begins_of_isDigit {c : Char} (h : c.isDigit) : Begins c := by
  refine ⟨?_, ?_⟩
  · simp only [isGap, Bool.or_eq_false_iff, decide_eq_false_iff_not]
    refine ⟨⟨⟨?_, ?_⟩, ?_⟩, ?_⟩ <;> rintro rfl <;> exact absurd h (by decide)
  · rintro rfl
    exact absurd h (by decide)

theorem newline_not_mem_escapeChar (c : Char) : '\n' ∉ escapeChar c := by
  refine Literal.forall_char (P := fun c => '\n' ∉ escapeChar c) (by decide) ?_ c
  intro c hne hc
  have hcode : c.toNat ≠ 8 ∧ c.toNat ≠ 12 ∧ ¬ c.toNat < 32 := by omega
  simp [escapeChar, hne, hcode, (hne '\n' (by decide)).symm]

theorem newline_not_mem_quote (s : String) : '\n' ∉ quote s := by
  have htext : '\n' ∉ s.toList.flatMap escapeChar := by
    intro hmem
    obtain ⟨c, -, hc⟩ := List.mem_flatMap.1 hmem
    exact newline_not_mem_escapeChar c hc
  simp [quote, htext]

theorem newline_not_mem_digitsText (n : Nat) : '\n' ∉ digitsText n := fun h =>
  absurd (isDigit_of_mem_digitsText h) (by decide)

theorem exists_cons_digitsText (n : Nat) : ∃ c text, digitsText n = c :: text ∧ c.isDigit := by
  obtain ⟨c, text, hdigits⟩ := List.exists_cons_of_ne_nil (show digitsText n ≠ [] from
    Nat.toDigits_ne_nil)
  refine ⟨c, text, hdigits, isDigit_of_mem_digitsText (n := n) ?_⟩
  rw [hdigits]
  exact List.mem_cons_self

mutual

/-- **A value is written as a text of its own on one line**, whatever follows it. -/
theorem exists_compactTo : ∀ {v : Json}, v.integral → ∃ c text, Begins c ∧ '\n' ∉ c :: text ∧
    ∀ rest, compactTo v rest = c :: (text ++ rest)
  | null, _ => ⟨'n', "ull".toList, by constructor <;> decide, by decide, fun _ => rfl⟩
  | bool true, _ => ⟨'t', "rue".toList, by constructor <;> decide, by decide, fun _ => rfl⟩
  | bool false, _ => ⟨'f', "alse".toList, by constructor <;> decide, by decide, fun _ => rfl⟩
  | number (.int (.ofNat n)), _ => by
    obtain ⟨c, text, hdigits, hc⟩ := exists_cons_digitsText n
    refine ⟨c, text, begins_of_isDigit hc, hdigits ▸ newline_not_mem_digitsText n, fun rest => ?_⟩
    rw [compactTo_natural, hdigits, List.cons_append]
  | number (.int (.negSucc n)), _ =>
    ⟨'-', digitsText (n + 1), by constructor <;> decide,
      by simp [newline_not_mem_digitsText], fun _ => rfl⟩
  | string s, _ => ⟨'"', s.toList.flatMap escapeChar ++ ['"'], by constructor <;> decide,
      newline_not_mem_quote s, fun rest => by simp [compactTo_string, quote]⟩
  | array [], _ => ⟨'[', [']'], by constructor <;> decide, by decide, fun _ => rfl⟩
  | array (v :: vs), h => by
    obtain ⟨hv, hvs⟩ := Bool.and_eq_true_iff.1 h
    obtain ⟨c, text, -, hline, hfirst⟩ := exists_compactTo hv
    obtain ⟨more, hmore, hfurther⟩ := exists_compactItems hvs
    refine ⟨'[', c :: text ++ more ++ [']'], by constructor <;> decide, ?_, fun rest => ?_⟩
    · simp_all
    · rw [compactTo_array_cons, hfirst, hfurther]
      simp
  | object [], _ => ⟨'\x7b', ['\x7d'], by constructor <;> decide, by decide, fun _ => rfl⟩
  | object ((k, v) :: es), h => by
    obtain ⟨hv, hes⟩ := Bool.and_eq_true_iff.1 h
    obtain ⟨c, text, -, hline, hfirst⟩ := exists_compactTo hv
    obtain ⟨more, hmore, hfurther⟩ := exists_compactEntries hes
    have hkey := newline_not_mem_quote k
    refine ⟨'\x7b', quote k ++ ':' :: c :: text ++ more ++ ['\x7d'], by constructor <;> decide, ?_,
      fun rest => ?_⟩
    · simp_all
    · rw [compactTo_object_cons, hfirst, hfurther]
      simp

theorem exists_compactItems : ∀ {vs : List Json}, integralItems vs → ∃ text, '\n' ∉ text ∧
    ∀ rest, compactItems vs rest = text ++ rest
  | [], _ => ⟨[], by simp, fun _ => rfl⟩
  | v :: vs, h => by
    obtain ⟨hv, hvs⟩ := Bool.and_eq_true_iff.1 h
    obtain ⟨c, text, -, hline, hfirst⟩ := exists_compactTo hv
    obtain ⟨more, hmore, hfurther⟩ := exists_compactItems hvs
    refine ⟨',' :: c :: text ++ more, ?_, fun rest => ?_⟩
    · simp_all
    · rw [compactItems, hfirst, hfurther]
      simp

theorem exists_compactEntries : ∀ {es : List (String × Json)}, integralEntries es →
    ∃ text, '\n' ∉ text ∧ ∀ rest, compactEntries es rest = text ++ rest
  | [], _ => ⟨[], by simp, fun _ => rfl⟩
  | (k, v) :: es, h => by
    obtain ⟨hv, hes⟩ := Bool.and_eq_true_iff.1 h
    obtain ⟨c, text, -, hline, hfirst⟩ := exists_compactTo hv
    obtain ⟨more, hmore, hfurther⟩ := exists_compactEntries hes
    have hkey := newline_not_mem_quote k
    refine ⟨',' :: quote k ++ ':' :: c :: text ++ more, ?_, fun rest => ?_⟩
    · simp_all
    · rw [compactEntries, hfirst, hfurther]
      simp

end

/-- A value on one line has no line end in it. -/
theorem newline_not_mem_compact {v : Json} (h : v.integral) : '\n' ∉ v.compact.toList := by
  obtain ⟨c, text, -, hline, htext⟩ := exists_compactTo h
  rw [compact, String.toList_ofList, htext, List.append_nil]
  exact hline

/-! ### Reading values -/

theorem skipGaps_cons {c : Char} (h : isGap c = false) (text : List Char) :
    skipGaps (c :: text) = c :: text := by
  rw [skipGaps, List.dropWhile_cons_of_neg (by simp [h])]

theorem length_lt_compactTo {v : Json} (h : v.integral) (rest : List Char) :
    rest.length < (compactTo v rest).length := by
  obtain ⟨c, text, -, -, htext⟩ := exists_compactTo h
  rw [htext, List.length_cons, List.length_append]
  omega

theorem length_le_compactItems {vs : List Json} (h : integralItems vs) (rest : List Char) :
    rest.length ≤ (compactItems vs rest).length := by
  obtain ⟨text, -, htext⟩ := exists_compactItems h
  rw [htext, List.length_append]
  omega

theorem length_le_compactEntries {es : List (String × Json)} (h : integralEntries es)
    (rest : List Char) : rest.length ≤ (compactEntries es rest).length := by
  obtain ⟨text, -, htext⟩ := exists_compactEntries h
  rw [htext, List.length_append]
  omega

theorem closed_compactItems (vs : List Json) (rest : List Char) :
    Closed (compactItems vs (']' :: rest)) := by
  cases vs with
  | nil => exact fun c hc => .inr (.inl (Option.some.inj hc).symm)
  | cons v vs => exact fun c hc => .inl (Option.some.inj hc).symm

theorem closed_compactEntries (es : List (String × Json)) (rest : List Char) :
    Closed (compactEntries es ('\x7d' :: rest)) := by
  cases es with
  | nil => exact fun c hc => .inr (.inr (Option.some.inj hc).symm)
  | cons e es => exact fun c hc => .inl (Option.some.inj hc).symm

/-- What the reader gets right with some allowance: the texts that are no longer than it is. -/
structure ReadsBack (n : Nat) : Prop where
  value : ∀ {v : Json} {rest : List Char}, v.integral → Closed rest →
    (compactTo v rest).length ≤ rest.length + n →
      readValue n (compactTo v rest) = some (v.reread, rest)
  items : ∀ {v : Json} {vs acc : List Json} {rest : List Char}, v.integral → integralItems vs →
    (compactTo v (compactItems vs (']' :: rest))).length ≤ rest.length + n →
      readItems n acc (compactTo v (compactItems vs (']' :: rest))) =
        some (acc.reverse ++ v.reread :: rereadItems vs, rest)
  entries : ∀ {k : String} {v : Json} {es : List (String × Json)}
    {acc : List (Option String × Json)} {rest : List Char}, v.integral → integralEntries es →
    (quote k ++ ':' :: compactTo v (compactEntries es ('\x7d' :: rest))).length ≤ rest.length + n →
      readEntries n acc (quote k ++ ':' :: compactTo v (compactEntries es ('\x7d' :: rest))) =
        some (acc.reverse ++
          ((k, v.reread) :: rereadEntries es).map (fun e => (some e.1, e.2)), rest)

variable {n : Nat} {v : Json} {rest : List Char}

/-- Numbers begin with a digit or with a sign. -/
theorem readValue_number (n : Nat) (i : Int) (h : Closed rest) :
    readValue (n + 1) (compactTo (.number (.int i)) rest) =
      some ((number (.int i)).reread, rest) := by
  cases i with
  | negSucc m => exact readNumber_digitsText true (m + 1) h
  | ofNat m =>
    obtain ⟨c, text, hdigits, hc⟩ := exists_cons_digitsText m
    have hread := readNumber_digitsText false m h
    rw [compactTo_natural, reread, ← hread, hdigits, List.cons_append, readValue,
      skipGaps_cons (begins_of_isDigit hc).not_gap]
    split
    case h_8 => rfl
    all_goals
      next heq =>
        obtain ⟨rfl, -⟩ := List.cons.inj heq
        exact absurd hc (by decide)

theorem ofEntries_map_some (es : List (String × Json)) :
    ofEntries (es.map fun e => (some e.1, e.2)) = .object es := by
  have hall : ∀ es : List (String × Json),
      (es.map fun e => (some e.1, e.2)).mapM (fun e : Option String × Json => e.1.map (·, e.2)) =
        some es := by
    intro es
    induction es with
    | nil => rfl
    | cons e es ih => simp [ih]
  rw [ofEntries, hall]

/-- Behind an opening bracket stands an item, if it is not closed at once. -/
theorem readValue_array (n : Nat) (h : v.integral) (rest : List Char) :
    readValue (n + 1) ('[' :: compactTo v rest) =
      (readItems n [] (compactTo v rest)).map fun r => (.array r.1, r.2) := by
  obtain ⟨c, text, hc, -, htext⟩ := exists_compactTo h
  rw [readValue, skipGaps_cons (by decide)]
  simp only [htext, skipGaps_cons hc.not_gap]
  split
  · next heq => exact absurd (List.cons.inj heq).1 hc.ne_bracket
  · rfl

/-- Behind an opening brace stands a key, if it is not closed at once. -/
theorem readValue_object (n : Nat) (k : String) (rest : List Char) :
    readValue (n + 1) ('\x7b' :: (quote k ++ rest)) =
      (readEntries n [] (quote k ++ rest)).map fun r => (ofEntries r.1, r.2) := rfl

/-- Behind a key and a colon stands a value, and behind that another entry or the end. -/
theorem readEntries_quote (n : Nat) (acc : List (Option String × Json)) (k : String)
    (rest : List Char) :
    readEntries (n + 1) acc ('"' :: (k.toList.flatMap escapeChar ++ '"' :: ':' :: rest)) =
      match readValue n rest with
      | none => none
      | some (v, rest) =>
        match skipGaps rest with
        | ',' :: rest => readEntries n ((some k, v) :: acc) rest
        | '\x7d' :: rest => some (((some k, v) :: acc).reverse, rest)
        | _ => none := by
  rw [readEntries, skipGaps_cons (by decide)]
  simp only [readString_flatMap]
  rfl

/-- The reader gets a value right if it gets the items and entries inside it right. -/
theorem ReadsBack.readValue_succ (ih : ReadsBack n) (h : v.integral) (hrest : Closed rest)
    (hlength : (compactTo v rest).length ≤ rest.length + (n + 1)) :
    readValue (n + 1) (compactTo v rest) = some (v.reread, rest) := by
  cases v with
  | null => rfl
  | bool b => cases b <;> rfl
  | number x =>
    cases x with
    | int i => exact readValue_number n i hrest
    | float x => cases h
  | string s =>
    have hread : readValue (n + 1) (compactTo (.string s) rest) =
        (readString (s.toList.flatMap escapeChar ++ '"' :: rest)).map fun r =>
          ((r.1.map Json.string).getD .meaningless, r.2) := by
      rw [compactTo_string, quote_append]
      rfl
    rw [hread, readString_flatMap]
    rfl
  | array items =>
    cases items with
    | nil => rfl
    | cons w ws =>
      obtain ⟨hw, hws⟩ := Bool.and_eq_true_iff.1 h
      rw [compactTo_array_cons, List.length_cons] at hlength
      rw [compactTo_array_cons, readValue_array n hw, ih.items hw hws (by omega)]
      rfl
  | object entries =>
    cases entries with
    | nil => rfl
    | cons e es =>
      obtain ⟨k, w⟩ := e
      obtain ⟨hw, hes⟩ := Bool.and_eq_true_iff.1 h
      rw [compactTo_object_cons, List.length_cons] at hlength
      rw [compactTo_object_cons, readValue_object n k, ih.entries hw hes (by omega)]
      exact congrArg (fun v => some (v, rest)) (ofEntries_map_some _)
  | meaningless => cases h

/-- The reader gets items right if it gets each of them right. -/
theorem ReadsBack.readItems_succ (ih : ReadsBack n) {vs acc : List Json} (h : v.integral)
    (hvs : integralItems vs)
    (hlength : (compactTo v (compactItems vs (']' :: rest))).length ≤ rest.length + (n + 1)) :
    readItems (n + 1) acc (compactTo v (compactItems vs (']' :: rest))) =
      some (acc.reverse ++ v.reread :: rereadItems vs, rest) := by
  -- The item is read with one less, and so are the further ones: both are shorter.
  have hitem := length_lt_compactTo h (compactItems vs (']' :: rest))
  have hrest := length_le_compactItems hvs (']' :: rest)
  rw [List.length_cons] at hrest
  rw [readItems, ih.value h (closed_compactItems vs rest) (by omega)]
  cases vs with
  | nil =>
    show some ((v.reread :: acc).reverse, rest) = _
    rw [List.reverse_cons, rereadItems]
  | cons w ws =>
    obtain ⟨hw, hws⟩ := Bool.and_eq_true_iff.1 hvs
    rw [compactItems, List.length_cons] at hitem
    rw [compactItems] at hlength
    show readItems n (v.reread :: acc) (compactTo w (compactItems ws (']' :: rest))) = _
    rw [ih.items hw hws (by omega)]
    simp [rereadItems]

/-- The reader gets entries right if it gets the value of each of them right. -/
theorem ReadsBack.readEntries_succ (ih : ReadsBack n) {k : String} {es : List (String × Json)}
    {acc : List (Option String × Json)} (h : v.integral) (hes : integralEntries es)
    (hlength : (quote k ++ ':' :: compactTo v (compactEntries es ('\x7d' :: rest))).length ≤
      rest.length + (n + 1)) :
    readEntries (n + 1) acc (quote k ++ ':' :: compactTo v (compactEntries es ('\x7d' :: rest))) =
      some (acc.reverse ++
        ((k, v.reread) :: rereadEntries es).map (fun e => (some e.1, e.2)), rest) := by
  have hentry := length_lt_compactTo h (compactEntries es ('\x7d' :: rest))
  have hrest := length_le_compactEntries hes ('\x7d' :: rest)
  rw [List.length_append, List.length_cons] at hlength
  rw [List.length_cons] at hrest
  rw [quote_append, readEntries_quote, ih.value h (closed_compactEntries es rest) (by omega)]
  cases es with
  | nil =>
    show some (((some k, v.reread) :: acc).reverse, rest) = _
    rw [List.reverse_cons, rereadEntries]
    rfl
  | cons e es =>
    obtain ⟨l, w⟩ := e
    obtain ⟨hw, hes⟩ := Bool.and_eq_true_iff.1 hes
    rw [compactEntries, List.length_cons, List.length_append, List.length_cons] at hentry
    rw [compactEntries] at hlength
    show readEntries n ((some k, v.reread) :: acc)
      (quote l ++ ':' :: compactTo w (compactEntries es ('\x7d' :: rest))) = _
    rw [ih.entries hw hes (by rw [List.length_append, List.length_cons]; omega)]
    simp [rereadEntries]

/-- **The reader gets all texts right for which its allowance suffices.** -/
theorem readsBack (n : Nat) : ReadsBack n := by
  induction n with
  | zero =>
    constructor
    · intro v rest h hrest hlength
      have := length_lt_compactTo h rest
      omega
    · intro v vs acc rest h hvs hlength
      have := length_lt_compactTo h (compactItems vs (']' :: rest))
      have := length_le_compactItems hvs (']' :: rest)
      rw [List.length_cons] at this
      omega
    · intro k v es acc rest h hes hlength
      have := length_lt_compactTo h (compactEntries es ('\x7d' :: rest))
      have := length_le_compactEntries hes ('\x7d' :: rest)
      rw [List.length_append, List.length_cons] at hlength
      rw [List.length_cons] at this
      omega
  | succ n ih => exact ⟨ih.readValue_succ, ih.readItems_succ, ih.readEntries_succ⟩

/-- **A value on one line is read back**, but for numbers that do not fit into 64 bits. -/
theorem ofText?_compact (h : v.integral) : ofText? v.compact = some v.reread := by
  rw [ofText?, compact, String.toList_ofList, ofChars?,
    (readsBack _).value h (fun _ hc => by cases hc) (by rw [List.length_nil]; omega)]
  rfl

/-! ### Numbers that fit -/

theorem rereadNatural_of_lt {n : Nat} (h : n < 2 ^ 64) :
    rereadNatural false n = .number (.int n) := by
  have hkept : n ≤ maxKept := by
    unfold maxKept
    exact Nat.le_sub_one_of_lt h
  rw [rereadNatural, keepWhole_digitsText hkept]
  rfl

theorem rereadNatural_of_le {n : Nat} (hpos : 0 < n) (h : n ≤ 2 ^ 63) :
    rereadNatural true n = .number (.int (-n)) := by
  have hkept : n ≤ maxKept := Nat.le_trans h (by decide)
  have hfits : (decide (0 < n) && decide (n ≤ Nat.pow 2 63)) = true := by
    rw [Bool.and_eq_true, decide_eq_true_eq, decide_eq_true_eq]
    exact ⟨hpos, h⟩
  rw [rereadNatural, keepWhole_digitsText hkept, wholeNumber, if_neg fun h => h rfl,
    if_neg (by decide)]
  exact if_pos hfits

theorem reread_int {i : Int} (h : Literal.fitsWord i) : (number (.int i)).reread = number (.int i) := by
  obtain ⟨hlower, hupper⟩ := Literal.fitsWord_iff.1 h
  cases i with
  | ofNat n =>
    rw [Int.ofNat_eq_natCast] at hupper
    exact rereadNatural_of_lt (by omega)
  | negSucc n => exact rereadNatural_of_le (Nat.succ_pos n) (by omega)

mutual

/-- **Numbers that fit into 64 bits stay what they are.** -/
theorem reread_of_whole : ∀ {v : Json}, v.whole → v.integral ∧ v.reread = v
  | null, _ | bool _, _ | string _, _ => ⟨rfl, rfl⟩
  | number (.float _), h | meaningless, h => by simp [whole] at h
  | number (.int i), h => ⟨rfl, reread_int h⟩
  | array items, h => by
    have hitems : wholeItems items := h
    obtain ⟨hintegral, hsame⟩ := rereadItems_of_whole hitems
    exact ⟨hintegral, congrArg _ hsame⟩
  | object entries, h => by
    have hentries : wholeEntries entries := h
    obtain ⟨hintegral, hsame⟩ := rereadEntries_of_whole hentries
    exact ⟨hintegral, congrArg _ hsame⟩

theorem rereadItems_of_whole : ∀ {vs : List Json}, wholeItems vs →
    integralItems vs ∧ rereadItems vs = vs
  | [], _ => ⟨rfl, rfl⟩
  | v :: vs, h => by
    obtain ⟨hv, hvs⟩ := Bool.and_eq_true_iff.1 h
    obtain ⟨hintegral, hsame⟩ := reread_of_whole hv
    obtain ⟨hintegrals, hsames⟩ := rereadItems_of_whole hvs
    exact ⟨Bool.and_eq_true_iff.2 ⟨hintegral, hintegrals⟩, by rw [rereadItems, hsame, hsames]⟩

theorem rereadEntries_of_whole : ∀ {es : List (String × Json)}, wholeEntries es →
    integralEntries es ∧ rereadEntries es = es
  | [], _ => ⟨rfl, rfl⟩
  | (k, v) :: es, h => by
    obtain ⟨hv, hes⟩ := Bool.and_eq_true_iff.1 h
    obtain ⟨hintegral, hsame⟩ := reread_of_whole hv
    obtain ⟨hintegrals, hsames⟩ := rereadEntries_of_whole hes
    exact ⟨Bool.and_eq_true_iff.2 ⟨hintegral, hintegrals⟩, by rw [rereadEntries, hsame, hsames]⟩

end

end FlowAnalysis.Json
