import FlowAnalysis.Json.Writer
import FlowAnalysis.Proofs.Keyed
import FlowAnalysis.Proofs.Literals.Written

/-!
# Reading back what is written as JSON

A text of JSON is an expression as well.  Where the numbers of a value are whole and fit into 64
bits, the expression is classified as a literal whose value is the one that was written.

## Main definitions

* `Piece.ofChar` — a character as it is written in a text of JSON.
* `Expression.text` — a literal as it is written.
* `Json.written` — the literal that the text of a value is.
* `Json.whole` — all numbers in a value are whole and fit into 64 bits.
* `Json.Ordered` — the keys of every object in a value ascend.

## Main results

* `Json.compactTo_eq` — the text of a value is that of its literal.
* `Json.recorded_written` — the value of the literal.
* `Source.toJson?_classify_written` — **what is written as JSON is read back.**
-/

namespace FlowAnalysis

open Syntax Literal

namespace Literal

/-! ### Characters -/

/-- A character as it is written in a text of JSON. -/
def Piece.ofChar (c : Char) : Piece :=
  if c = '"' || c = '\\' then .escape c
  else if c = '\n' then .escape 'n'
  else if c = '\r' then .escape 'r'
  else if c = '\t' then .escape 't'
  else if c.toNat = 8 then .escape 'b'
  else if c.toNat = 12 then .escape 'f'
  else if c.toNat < 32 then .long (.ofNat (c.toNat / 4096)) (.ofNat (c.toNat / 256))
    (.ofNat (c.toNat / 16)) (.ofNat c.toNat)
  else .plain c

/-- A character is one of the first 128, or beyond those that are escaped. -/
theorem forall_char {P : Char → Prop} (hascii : ∀ n < 128, P (Char.ofNat n))
    (hplain : ∀ c : Char, (∀ d : Char, d.toNat < 128 → c ≠ d) → 128 ≤ c.toNat → P c) (c : Char) :
    P c := by
  rcases Nat.lt_or_ge c.toNat 128 with hc | hc
  · exact Char.ofNat_toNat c ▸ hascii c.toNat hc
  · refine hplain c (fun d hd => ?_) hc
    rintro rfl
    omega

theorem Piece.ofChar_of_le {c : Char} (hne : ∀ d : Char, d.toNat < 128 → c ≠ d)
    (hc : 128 ≤ c.toNat) : ofChar c = .plain c := by
  have hcode : c.toNat ≠ 8 ∧ c.toNat ≠ 12 ∧ ¬ c.toNat < 32 := by omega
  simp [ofChar, hne, hcode]

theorem Piece.text_ofChar (c : Char) : (ofChar c).text = Json.escapeChar c := by
  refine forall_char (P := fun c => (ofChar c).text = Json.escapeChar c) (by decide) ?_ c
  intro c hne hc
  have hcode : c.toNat ≠ 8 ∧ c.toNat ≠ 12 ∧ ¬ c.toNat < 32 := by omega
  simp [ofChar_of_le hne hc, text, Json.escapeChar, hne, hcode]

theorem Piece.read_ofChar (c : Char) : (ofChar c).read = [c] := by
  refine forall_char (P := fun c => (ofChar c).read = [c]) (by decide) ?_ c
  intro c hne hc
  rw [ofChar_of_le hne hc, read]

theorem textOf_map_ofChar (text : List Char) :
    textOf (text.map Piece.ofChar) = text.flatMap Json.escapeChar := by
  simp only [textOf, List.flatMap_map, Piece.text_ofChar]

theorem flatMap_read_map_ofChar (text : List Char) :
    (text.map Piece.ofChar).flatMap Piece.read = text := by
  simp only [List.flatMap_map, Piece.read_ofChar, List.flatMap_singleton']

/-! ### Literals as they are written -/

/-- A leaf as it is written. -/
def Leaf.text : Leaf → List Char
  | null => "null".toList
  | bool true => "true".toList
  | bool false => "false".toList
  | whole false digits => digits
  | whole true digits => '-' :: digits
  | string q ps => q.char :: (textOf ps ++ [q.char])

/-- A key as it is written. -/
def Key.text : Key → List Char
  | identifier ps => textOf ps
  | string q ps => q.char :: (textOf ps ++ [q.char])
  | number text => text

namespace Expression

mutual

/-- A literal as it is written, without blanks. -/
def text : Expression → List Char
  | leaf l => l.text
  | array items => '[' :: (textOfItems items ++ [']'])
  | object entries => '\x7b' :: (textOfEntries entries ++ ['\x7d'])

/-- Items with commas behind them, but for the last one that is no hole. -/
def textOfItems : List (Option Expression) → List Char
  | [] => []
  | none :: rest => ',' :: textOfItems rest
  | some e :: rest => text e ++ if rest.isEmpty then [] else ',' :: textOfItems rest

/-- Properties with commas between them. -/
def textOfEntries : List (Key × Expression) → List Char
  | [] => []
  | (k, e) :: rest =>
    k.text ++ ':' :: (text e ++ if rest.isEmpty then [] else ',' :: textOfEntries rest)

end

end Expression

end Literal

namespace Json

/-- A whole number as a literal. -/
def writtenInt : Int → Leaf
  | .ofNat n => .whole false (Decimal.digitsText n)
  | .negSucc n => .whole true (Decimal.digitsText (n + 1))

mutual

/-- The literal that the text of a value is; numbers that are not whole are left out. -/
def written : Json → Expression
  | null => .leaf .null
  | bool b => .leaf (.bool b)
  | number (.int i) => .leaf (writtenInt i)
  | string s => .leaf (.string .double (s.toList.map .ofChar))
  | array items => .array (writtenItems items)
  | object entries => .object (writtenEntries entries)
  | number (.float _) | meaningless => .leaf .null

/-- The literals that the texts of some values are. -/
def writtenItems : List Json → List (Option Expression)
  | [] => []
  | v :: rest => some (written v) :: writtenItems rest

/-- The literals that the texts of some values are, with their keys. -/
def writtenEntries : List (String × Json) → List (Key × Expression)
  | [] => []
  | (k, v) :: rest => (.string .double (k.toList.map .ofChar), written v) :: writtenEntries rest

end

mutual

/-- Whether all numbers in a value are whole and fit into 64 bits. -/
def whole : Json → Bool
  | number (.int i) => fitsWord i
  | number (.float _) | meaningless => false
  | array items => wholeItems items
  | object entries => wholeEntries entries
  | _ => true

/-- Whether all numbers in some values are whole and fit into 64 bits. -/
def wholeItems : List Json → Bool
  | [] => true
  | v :: rest => whole v && wholeItems rest

/-- Whether all numbers in the values of some entries are whole and fit into 64 bits. -/
def wholeEntries : List (String × Json) → Bool
  | [] => true
  | (_, v) :: rest => whole v && wholeEntries rest

end

mutual

/-- The keys of every object in a value ascend, so none is repeated. -/
def Ordered : Json → Prop
  | array items => OrderedItems items
  | object entries => Keyed.Ordered entries ∧ OrderedEntries entries
  | _ => True

/-- The keys of every object in some values ascend. -/
def OrderedItems : List Json → Prop
  | [] => True
  | v :: rest => Ordered v ∧ OrderedItems rest

/-- The keys of every object in the values of some entries ascend. -/
def OrderedEntries : List (String × Json) → Prop
  | [] => True
  | (_, v) :: rest => Ordered v ∧ OrderedEntries rest

end

/-! ### The text -/

theorem text_writtenInt (i : Int) : (writtenInt i).text = numberText (.int i) := by
  cases i <;> rfl

theorem text_string (text : String) :
    '"' :: (Literal.textOf (text.toList.map .ofChar) ++ ['"']) = quote text := by
  rw [textOf_map_ofChar]
  rfl

mutual

/-- **The text of a value is that of its literal.** -/
theorem compactTo_eq : ∀ {v : Json}, v.whole → ∀ rest : List Char,
    compactTo v rest = v.written.text ++ rest
  | null, _, rest | bool true, _, rest | bool false, _, rest => rfl
  | number (.int i), _, rest => congrArg (· ++ rest) (text_writtenInt i).symm
  | number (.float _), h, rest | meaningless, h, rest => by simp [whole] at h
  | string text, _, rest => congrArg (· ++ rest) (text_string text).symm
  | array [], _, rest | object [], _, rest => rfl
  | array (v :: vs), h, rest => by
    obtain ⟨hv, hvs⟩ := Bool.and_eq_true_iff.1 h
    -- The equation is stated here: rewriting with the definition would go through its texts.
    have hcompact : compactTo (array (v :: vs)) rest =
        '[' :: compactTo v (compactItems vs (']' :: rest)) := rfl
    rw [hcompact, compactItems_eq hvs, compactTo_eq hv]
    simp [written, writtenItems, Expression.text, Expression.textOfItems]
  | object ((k, v) :: es), h, rest => by
    obtain ⟨hv, hes⟩ := Bool.and_eq_true_iff.1 h
    have hcompact : compactTo (object ((k, v) :: es)) rest = '\x7b' ::
        (quote k ++ ':' :: compactTo v (compactEntries es ('\x7d' :: rest))) := rfl
    rw [hcompact, compactEntries_eq hes, compactTo_eq hv, ← text_string]
    simp [written, writtenEntries, Expression.text, Expression.textOfEntries, Key.text,
      Delimiter.char]

/-- The text of further items is that of their literals. -/
theorem compactItems_eq : ∀ {vs : List Json}, wholeItems vs → ∀ rest : List Char,
    compactItems vs rest = (if (writtenItems vs).isEmpty then []
      else ',' :: Expression.textOfItems (writtenItems vs)) ++ rest
  | [], _, rest => rfl
  | v :: vs, h, rest => by
    obtain ⟨hv, hvs⟩ := Bool.and_eq_true_iff.1 h
    rw [compactItems, compactItems_eq hvs, compactTo_eq hv]
    simp [writtenItems, Expression.textOfItems]

/-- The text of further entries is that of their keys and literals. -/
theorem compactEntries_eq : ∀ {es : List (String × Json)}, wholeEntries es → ∀ rest : List Char,
    compactEntries es rest = (if (writtenEntries es).isEmpty then []
      else ',' :: Expression.textOfEntries (writtenEntries es)) ++ rest
  | [], _, rest => rfl
  | (k, v) :: es, h, rest => by
    obtain ⟨hv, hes⟩ := Bool.and_eq_true_iff.1 h
    rw [compactEntries, compactEntries_eq hes, compactTo_eq hv, ← text_string]
    simp [writtenEntries, Expression.textOfEntries, Key.text, Delimiter.char]

end

/-! ### The value -/

theorem isDigit_of_mem_digitsText {n : Nat} {c : Char} (h : c ∈ Decimal.digitsText n) :
    c.isDigit :=
  Nat.isDigit_of_mem_toDigits (by decide) (by decide) h

theorem digitsValue_ten {digits : List Char} (h : ∀ c ∈ digits, c.isDigit) (n : Nat) :
    digits.foldl (fun n c =>
      n * 10 + (if c.isDigit then c.toNat - 48 else c.toLower.toNat - 87)) n =
        Nat.ofDigitChars 10 digits n := by
  induction digits generalizing n with
  | nil => rfl
  | cons c digits ih =>
    rw [List.forall_mem_cons] at h
    rw [List.foldl_cons, ih h.2, Nat.ofDigitChars_cons, if_pos h.1, Nat.mul_comm]
    rfl

/-- Digits stand for the number they are the digits of. -/
theorem wholeValue_digitsText (negative : Bool) (n : Nat) :
    wholeValue negative (Decimal.digitsText n) = if negative then -(n : Int) else n := by
  have hfilter : (Decimal.digitsText n).filter (· ≠ '_') = Decimal.digitsText n := by
    refine List.filter_eq_self.2 fun c hc => ?_
    simp only [decide_eq_true_eq]
    rintro rfl
    exact absurd (isDigit_of_mem_digitsText hc) (by decide)
  rw [wholeValue, hfilter, digitsValue,
    digitsValue_ten (fun c => isDigit_of_mem_digitsText), Decimal.digitsText,
    Nat.ofDigitChars_ten_toDigits]

theorem exists_writtenInt (i : Int) : ∃ negative n,
    writtenInt i = .whole negative (Decimal.digitsText n) ∧
      wholeValue negative (Decimal.digitsText n) = i := by
  cases i with
  | ofNat n => exact ⟨false, n, rfl, wholeValue_digitsText false n⟩
  | negSucc n =>
    refine ⟨true, n + 1, rfl, ?_⟩
    rw [wholeValue_digitsText, if_pos rfl, Int.negSucc_eq, Int.natCast_add, Int.natCast_one]

theorem recorded_writtenInt (i : Int) : (writtenInt i).recorded = .int i := by
  obtain ⟨negative, n, hwritten, hvalue⟩ := exists_writtenInt i
  rw [hwritten, Leaf.recorded, hvalue]

theorem fits_writtenInt {i : Int} (h : fitsWord i) : (writtenInt i).fits := by
  obtain ⟨negative, n, hwritten, hvalue⟩ := exists_writtenInt i
  rw [hwritten, Leaf.fits, hvalue, h, Bool.and_true, List.all_eq_true]
  intro c hc
  rw [isDigit_of_mem_digitsText hc, Bool.true_or]

theorem ofList_read (text : String) :
    String.ofList ((text.toList.map Piece.ofChar).flatMap Piece.read) = text := by
  rw [flatMap_read_map_ofChar, String.ofList_toList]

mutual

/-- **The literal that the text of a value is has this value.** -/
theorem recorded_written : ∀ {v : Json}, v.whole → v.written.recorded = v.canonical
  | null, _ | bool _, _ => rfl
  | number (.int i), _ => recorded_writtenInt i
  | number (.float _), h | meaningless, h => by simp [whole] at h
  | string text, _ => by
    rw [written, Expression.recorded, Leaf.recorded, ofList_read]
    rfl
  | array items, h => by
    rw [written, Expression.recorded, recordedItems_writtenItems h, canonical]
  | object entries, h => by
    rw [written, Expression.recorded, recordedEntries_writtenEntries h, canonical]

theorem recordedItems_writtenItems : ∀ {vs : List Json}, wholeItems vs →
    Expression.recordedItems (writtenItems vs) = canonicalItems vs
  | [], _ => rfl
  | v :: vs, h => by
    obtain ⟨hv, hvs⟩ := Bool.and_eq_true_iff.1 h
    rw [writtenItems, Expression.recordedItems, recorded_written hv,
      recordedItems_writtenItems hvs, canonicalItems]

theorem recordedEntries_writtenEntries : ∀ {es : List (String × Json)}, wholeEntries es →
    Expression.recordedEntries (writtenEntries es) = canonicalEntries es
  | [], _ => rfl
  | (k, v) :: es, h => by
    obtain ⟨hv, hes⟩ := Bool.and_eq_true_iff.1 h
    rw [writtenEntries, Expression.recordedEntries, recorded_written hv, Key.recorded,
      ofList_read, recordedEntries_writtenEntries hes, canonicalEntries]

end

mutual

/-- The whole numbers in the literal fit into 64 bits. -/
theorem fits_of_mem_leaves : ∀ {v : Json}, v.whole → ∀ l ∈ v.written.leaves, l.fits
  | null, _ | bool _, _ | string _, _ => by
    rw [written, Expression.leaves, List.forall_mem_singleton]
    rfl
  | number (.int i), h => by
    rw [written, Expression.leaves, List.forall_mem_singleton]
    exact fits_writtenInt h
  | number (.float _), h | meaningless, h => by simp [whole] at h
  | array _, h => fits_of_mem_leavesOfItems h
  | object _, h => fits_of_mem_leavesOfEntries h

theorem fits_of_mem_leavesOfItems : ∀ {vs : List Json}, wholeItems vs →
    ∀ l ∈ Expression.leavesOfItems (writtenItems vs), l.fits
  | [], _ => by simp [writtenItems, Expression.leavesOfItems]
  | v :: vs, h => by
    obtain ⟨hv, hvs⟩ := Bool.and_eq_true_iff.1 h
    exact List.forall_mem_append.2 ⟨fits_of_mem_leaves hv, fits_of_mem_leavesOfItems hvs⟩

theorem fits_of_mem_leavesOfEntries : ∀ {es : List (String × Json)}, wholeEntries es →
    ∀ l ∈ Expression.leavesOfEntries (writtenEntries es), l.fits
  | [], _ => by simp [writtenEntries, Expression.leavesOfEntries]
  | (k, v) :: es, h => by
    obtain ⟨hv, hes⟩ := Bool.and_eq_true_iff.1 h
    exact List.forall_mem_append.2 ⟨fits_of_mem_leaves hv, fits_of_mem_leavesOfEntries hes⟩

end

mutual

/-- **A value whose keys ascend is in canonical form.** -/
theorem Ordered.canonical_eq : ∀ {v : Json}, v.Ordered → v.canonical = v
  | null, _ | bool _, _ | number _, _ | string _, _ | meaningless, _ => rfl
  | array items, h => by rw [canonical, OrderedItems.canonical_eq h]
  | object entries, h => by rw [canonical, OrderedEntries.canonical_eq h.2, h.1.sorted_eq]

theorem OrderedItems.canonical_eq : ∀ {vs : List Json}, OrderedItems vs → canonicalItems vs = vs
  | [], _ => rfl
  | v :: vs, h => by
    rw [canonicalItems, Ordered.canonical_eq h.1, OrderedItems.canonical_eq h.2]

theorem OrderedEntries.canonical_eq : ∀ {es : List (String × Json)}, OrderedEntries es →
    canonicalEntries es = es
  | [], _ => rfl
  | (k, v) :: es, h => by
    rw [canonicalEntries, Ordered.canonical_eq h.1, OrderedEntries.canonical_eq h.2]

end

end Json

namespace Syntax.Source

/-- **What is written as JSON is read back:** the text of a value is a literal, and whatever tree
spells this literal is classified as one with the value, its keys put in order. -/
theorem toJson?_classify_written {v : Json} (h : v.whole) :
    Json.compactTo v [] = v.written.text ∧
      ∀ (s : Source) (t : Tree), s.spells v.written t →
        (s.classify t).toJson? = some v.canonical ∧
          (v.Ordered → (s.classify t).toJson? = some v) := by
  refine ⟨by rw [Json.compactTo_eq h, List.append_nil], fun s t hspells => ?_⟩
  have hvalue : (s.classify t).toJson? = some v.canonical := by
    rw [toJson?_classify_of_spells hspells (Json.fits_of_mem_leaves h), Json.recorded_written h]
  exact ⟨hvalue, fun hordered => by rw [hvalue, hordered.canonical_eq]⟩

/-- A value with a text that has to be escaped and the least whole number. -/
def nestedValue : Json := .object [("\x01\"", .array [.int (-9223372036854775808), .null])]

/-- The text of a value is parsed, and the expression in it is classified as the value. -/
theorem toJson?_classify_written_nestedValue : nestedValue.whole ∧
    ∃ s, parse (String.ofList ('x' :: '=' :: Json.compactTo nestedValue [])) = .ok s ∧
      ∃ t ∈ s.root.nodes, s.spells nestedValue.written t ∧
        (s.classify t).toJson? = some nestedValue := by
  have hread : (parse (String.ofList ('x' :: '=' :: Json.compactTo nestedValue []))).toOption.any
      fun s => s.root.nodes.any (s.spells nestedValue.written) := by
    decide +kernel
  have hwhole : nestedValue.whole := by decide +kernel
  obtain ⟨s, hs, hany⟩ := Option.any_eq_true _ _ |>.1 hread
  obtain ⟨t, ht, hspells⟩ := List.any_eq_true.1 hany
  have hordered : nestedValue.Ordered := by
    simp [nestedValue, Json.Ordered, Json.OrderedEntries, Json.OrderedItems, Json.int, Keyed.Ordered]
  exact ⟨hwhole, s, eq_ok_of_toOption hs, t, ht, hspells,
    ((toJson?_classify_written hwhole).2 s t hspells).2 hordered⟩

end Syntax.Source

end FlowAnalysis
