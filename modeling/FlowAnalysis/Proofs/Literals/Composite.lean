import FlowAnalysis.Proofs.Literals.Written

/-!
# The values of arrays and objects

What a literal is worth when the flow runs: every item stands at its own index, a key goes by its
name and not by its spelling, and a number is the nearest one with 53 significant bits.  An array
with a hole has no counterpart in JSON.

## Main definitions

* `charsOf` — the text that code units make up.
* `Binary64.plainText` — a number as the language writes it.
* `Key.name` — the name that a key stands for.
* `Expression.value?` — the value of a literal, if it can be written as JSON.
* `Leaf.isExact`, `Key.isKept` — leaves and keys that are recorded as what they stand for.
* `Expression.isFull` — no array in a literal has a hole.

## Main results

* `Binary64.nearest_of_lt` — whole numbers of up to 53 bits are the nearest to themselves.
* `charsOf_textUnits` — the code units of a text make up the text.
* `Expression.value?_eq` — the value of a literal from what is recorded for it.
* `Source.toJson?_eq_value?_iff` — **what is recorded is the value exactly if there are no holes.**
-/

namespace FlowAnalysis

open Syntax

namespace Decimal.Binary64

/-- A number that is not negative as the language writes it: with up to 21 places before the point
and up to six zeros behind it there is no exponent. -/
def plainText (x : Binary64) : List Char :=
  let d := shortest x
  let ds := digitsText d.digits
  if x.isZero then ['0']
  else if 0 ≤ d.exponent && ds.length + d.exponent ≤ 21 then
    ds ++ List.replicate d.exponent.toNat '0'
  else (⟨-6, 20⟩ : Notation).magnitude d

/-- The number nearest to a whole number, which is whole as well. -/
def nearest (n : Nat) : Nat :=
  match ofNat? false n with
  | some x => x.ratio.1 / x.ratio.2
  | none => n

theorem pow_mul_pow (a b : Nat) : Nat.pow 2 a * Nat.pow 2 b = Nat.pow 2 (a + b) :=
  (Nat.pow_add 2 a b).symm

theorem scaled_one {k : Nat} (hk : k ≤ 52) (n : Nat) :
    scaled n 1 ((k : Int) - 52) = (n * Nat.pow 2 (52 - k), 1) := by
  have hshift : (-((k : Int) - 52)).toNat = 52 - k := by omega
  rw [scaled, hshift]
  split
  · obtain rfl : k = 52 := by omega
    exact congrArg (·, 1) (Nat.mul_one n).symm
  · rfl

theorem powRatio_two {k : Nat} (hk : k ≤ 52) :
    powRatio 2 ((k : Int) - 52) = (1, Nat.pow 2 (52 - k)) := by
  have hshift : (-((k : Int) - 52)).toNat = 52 - k := by omega
  rw [powRatio, hshift]
  split
  · obtain rfl : k = 52 := by omega
    rfl
  · rfl

/-- A whole number of up to 53 bits is shifted until it has 53. -/
theorem exponentOf_one {n : Nat} (hn : n ≠ 0) (hlog : n.log2 ≤ 52) :
    exponentOf n 1 = (n.log2 : Int) - 52 := by
  have hguess : max minExponent ((n.log2 : Int) - (Nat.log2 1 : Nat) - 53) = n.log2 - 53 := by
    rw [minExponent, show Nat.log2 1 = 0 by decide]
    omega
  have hle : Nat.pow 2 n.log2 * Nat.pow 2 (53 - n.log2) ≤ n * Nat.pow 2 (53 - n.log2) :=
    Nat.mul_le_mul_right _ (Nat.log2_self_le hn)
  rw [pow_mul_pow, Nat.add_sub_of_le (by omega)] at hle
  have hshift : (-((n.log2 : Int) - 53)).toNat = 53 - n.log2 := by omega
  rw [exponentOf, hguess, scaled, if_neg (by omega), hshift]
  dsimp only
  rw [Nat.div_one, fullWidth, if_neg (Nat.not_lt_of_le hle)]
  omega

/-- **Whole numbers of up to 53 bits are the nearest to themselves.** -/
theorem nearest_of_lt {n : Nat} (hlt : n < Nat.pow 2 53) : nearest n = n := by
  by_cases hn : n = 0
  · subst hn
    decide +kernel
  have hlog : n.log2 ≤ 52 := Nat.le_of_lt_succ ((Nat.log2_lt hn).2 hlt)
  have hwidth : n * Nat.pow 2 (52 - n.log2) < 2 * Nat.pow 2 52 := by
    have hless : n * Nat.pow 2 (52 - n.log2) < Nat.pow 2 (n.log2 + 1) * Nat.pow 2 (52 - n.log2) :=
      Nat.mul_lt_mul_of_pos_right Nat.lt_log2_self (Nat.two_pow_pos _)
    rwa [pow_mul_pow, show n.log2 + 1 + (52 - n.log2) = 53 by omega] at hless
  have hnumber : ofNat? false n =
      some ⟨false, n * Nat.pow 2 (52 - n.log2), (n.log2 : Int) - 52⟩ := by
    rw [ofNat?, ofRatio?, if_neg hn, exponentOf_one hn hlog]
    dsimp only
    rw [scaled_one hlog]
    dsimp only
    -- Nothing is rounded: the quotient is whole, and it has just the width.
    rw [roundDiv, Nat.div_one, Nat.mod_one, if_pos (by decide), settle?, fullWidth, if_pos hwidth]
    dsimp only
    rw [if_pos (by rw [maxExponent]; omega)]
  rw [nearest, hnumber]
  dsimp only
  rw [ratio, powRatio_two hlog]
  dsimp only
  rw [Nat.mul_one]
  exact Nat.mul_div_cancel n (Nat.two_pow_pos _)

end Decimal.Binary64

open Decimal

namespace Literal

/-! ### Texts -/

/-- The text that code units make up: two halves of a character are one. -/
def charsOf : List Nat → List Char
  | [] => []
  | [u] => [Char.ofNat u]
  | u :: v :: rest =>
    if 0xD800 ≤ u && u < 0xDC00 && 0xDC00 ≤ v && v < 0xE000 then
      Char.ofNat (0x10000 + (u - 0xD800) * 0x400 + (v - 0xDC00)) :: charsOf rest
    else Char.ofNat u :: charsOf (v :: rest)

theorem charsOf_cons {u : Nat} (hu : isHalfUnit u = false) (us : List Nat) :
    charsOf (u :: us) = Char.ofNat u :: charsOf us := by
  cases us with
  | nil => rfl
  | cons v rest =>
    simp only [isHalfUnit, Bool.and_eq_false_iff, decide_eq_false_iff_not] at hu
    rw [charsOf, if_neg]
    simp only [Bool.and_eq_true, decide_eq_true_eq]
    omega

/-- **The code units of a text make up the text.** -/
theorem charsOf_textUnits (text : List Char) : charsOf (textUnits text) = text := by
  induction text with
  | nil => rfl
  | cons c text ih =>
    have hvalid := isValidChar_iff.1 c.valid
    have hle : c.toNat ≤ 0x10FFFF := hvalid.2
    rw [textUnits_cons, unitsOf]
    split
    · rw [List.singleton_append, charsOf_cons (isHalfUnit_toNat c), Char.ofNat_toNat, ih]
    · -- Both halves are in their ranges, and the number comes back from them.
      have hnumber : 0x10000 + (0xD800 + (c.toNat - 0x10000) / 0x400 - 0xD800) * 0x400 +
          (0xDC00 + (c.toNat - 0x10000) % 0x400 - 0xDC00) = c.toNat := by omega
      have hhalves : (0xD800 ≤ 0xD800 + (c.toNat - 0x10000) / 0x400 &&
          0xD800 + (c.toNat - 0x10000) / 0x400 < 0xDC00 &&
          0xDC00 ≤ 0xDC00 + (c.toNat - 0x10000) % 0x400 &&
          0xDC00 + (c.toNat - 0x10000) % 0x400 < 0xE000) := by
        simp only [Bool.and_eq_true, decide_eq_true_eq]
        omega
      rw [List.cons_append, List.singleton_append, charsOf, if_pos hhalves, hnumber,
        Char.ofNat_toNat, ih]

/-- The text that some pieces stand for. -/
def valueOf (ps : List Piece) : String := String.ofList (charsOf (ps.flatMap Piece.units))

/-- Whether a piece is a character that stands for itself. -/
def Piece.isPlain : Piece → Bool
  | plain _ => true
  | _ => false

/-- Characters that stand for themselves are read as what they stand for. -/
theorem ofList_read_of_isPlain {ps : List Piece} (h : ps.all Piece.isPlain) :
    String.ofList (ps.flatMap Piece.read) = valueOf ps := by
  have hunits : ps.flatMap Piece.units = textUnits (ps.flatMap Piece.read) := by
    rw [textUnits, List.flatMap_assoc]
    refine List.flatMap_congr fun p hp => ?_
    have hplain := List.all_eq_true.1 h p hp
    cases p with
    | plain c => exact (List.append_nil _).symm
    | _ => simp [Piece.isPlain] at hplain
  rw [valueOf, hunits, charsOf_textUnits]

/-! ### Names -/

/-- The name that a number stands for, which is the number as the language writes it.  A number of
arbitrary size is written with all its digits. -/
def numberName (text : List Char) : List Char :=
  let digits := text.filter (· ≠ '_')
  if digits.getLast? = some 'n' then
    digitsText <| match radixOf? digits.dropLast with
      | some (base, ds) => digitsValue base ds
      | none => digitsValue 10 digits.dropLast
  else
    let number := match radixOf? digits with
      | some (base, ds) => Binary64.ofNat? false (digitsValue base ds)
      | none => Binary64.ofDecimal? false (decimalParts digits).1 (decimalParts digits).2
    (number.map Binary64.plainText).getD "Infinity".toList

example : numberName "0x10".toList = "16".toList := by decide +kernel

example : numberName "1_000.50e-9".toList = "0.0000010005".toList := by decide +kernel

/-- The name that a key stands for. -/
def Key.name : Key → String
  | identifier ps | string _ ps => valueOf ps
  | number text => String.ofList (numberName text)

/-- What a key is called that gives an object its prototype and no property. -/
def prototypeName : String := "__proto__"

/-- Whether a key is recorded as the name of the property that it stands for. -/
def Key.isKept (k : Key) : Bool := k.recorded = k.name && k.name ≠ prototypeName

/-! ### Values -/

/-- The value of a leaf. -/
def Leaf.value : Leaf → Json
  | null => .null
  | bool b => .bool b
  | whole negative digits =>
    let n := Binary64.nearest (digitsValue 10 (digits.filter (· ≠ '_')))
    .int (if negative then -(n : Int) else n)
  | string _ ps => .string (valueOf ps)

/-- Whether a leaf is a string without escapes, or a whole number that fits into 64 bits and is one
with 53 significant bits, without zeros in front; or neither. -/
def Leaf.isExact : Leaf → Bool
  | whole negative digits =>
    (whole negative digits).fits && (digits.head? ≠ some '0' || digits = ['0']) &&
      Binary64.nearest (digitsValue 10 (digits.filter (· ≠ '_'))) =
        digitsValue 10 (digits.filter (· ≠ '_'))
  | string _ ps => ps.all Piece.isPlain
  | _ => true

theorem Leaf.fits_of_isExact {l : Leaf} (h : l.isExact) : l.fits := by
  cases l with
  | whole negative digits =>
    simp only [isExact, Bool.and_eq_true] at h
    exact h.1.1
  | _ => rfl

theorem Leaf.recorded_eq_value {l : Leaf} (h : l.isExact) : l.recorded = l.value := by
  cases l with
  | whole negative digits =>
    simp only [isExact, Bool.and_eq_true, decide_eq_true_eq] at h
    rw [recorded, value, h.2]
    rfl
  | string q ps => rw [recorded, value, ofList_read_of_isPlain h]
  | _ => rfl

namespace Expression

mutual

/-- The keys in a literal. -/
def keys : Expression → List Key
  | leaf _ => []
  | array items => keysOfItems items
  | object entries => keysOfEntries entries

/-- The keys in some items. -/
def keysOfItems : List (Option Expression) → List Key
  | [] => []
  | none :: rest => keysOfItems rest
  | some e :: rest => keys e ++ keysOfItems rest

/-- The keys of some entries and those in their values. -/
def keysOfEntries : List (Key × Expression) → List Key
  | [] => []
  | (k, e) :: rest => k :: (keys e ++ keysOfEntries rest)

end

mutual

/-- Whether no array in a literal has a hole. -/
def isFull : Expression → Bool
  | leaf _ => true
  | array items => areFullItems items
  | object entries => areFullEntries entries

/-- Whether there is no hole among some items or in one of them. -/
def areFullItems : List (Option Expression) → Bool
  | [] => true
  | none :: _ => false
  | some e :: rest => isFull e && areFullItems rest

/-- Whether there is no hole in the value of one of some entries. -/
def areFullEntries : List (Key × Expression) → Bool
  | [] => true
  | (_, e) :: rest => isFull e && areFullEntries rest

end

mutual

/-- The value of a literal, if it can be written as JSON; of entries of one name the last counts. -/
def value? : Expression → Option Json
  | leaf l => some l.value
  | array items => (valuesOfItems? items).map .array
  | object entries =>
    (valuesOfEntries? entries).map fun es => .object (Keyed.sorted Keyed.stringLt es)

/-- The values of some items, none of which may be a hole. -/
def valuesOfItems? : List (Option Expression) → Option (List Json)
  | [] => some []
  | none :: _ => none
  | some e :: rest =>
    match value? e, valuesOfItems? rest with
    | some v, some vs => some (v :: vs)
    | _, _ => none

/-- The properties that some entries give an object. -/
def valuesOfEntries? : List (Key × Expression) → Option (List (String × Json))
  | [] => some []
  | (k, e) :: rest =>
    match value? e, valuesOfEntries? rest with
    | some v, some es => some (if k.name = prototypeName then es else (k.name, v) :: es)
    | _, _ => none

end

mutual

/-- **The value of a literal is what is recorded for it, unless there is a hole.** -/
theorem value?_eq : ∀ {e : Expression}, (∀ l ∈ e.leaves, l.isExact) → (∀ k ∈ e.keys, k.isKept) →
    e.value? = if e.isFull then some e.recorded else none
  | leaf l, hleaves, _ => by
    rw [value?, isFull, if_pos rfl, recorded, Leaf.recorded_eq_value (hleaves l List.mem_cons_self)]
  | array items, hleaves, hkeys => by
    rw [value?, isFull, recorded, valuesOfItems?_eq hleaves hkeys]
    split <;> rfl
  | object entries, hleaves, hkeys => by
    rw [value?, isFull, recorded, valuesOfEntries?_eq hleaves hkeys]
    split <;> rfl

theorem valuesOfItems?_eq : ∀ {items : List (Option Expression)},
    (∀ l ∈ leavesOfItems items, l.isExact) → (∀ k ∈ keysOfItems items, k.isKept) →
      valuesOfItems? items = if areFullItems items then some (recordedItems items) else none
  | [], _, _ => rfl
  | none :: _, _, _ => rfl
  | some e :: rest, hleaves, hkeys => by
    obtain ⟨hleaves, hleavesRest⟩ := List.forall_mem_append.1 hleaves
    obtain ⟨hkeys, hkeysRest⟩ := List.forall_mem_append.1 hkeys
    rw [valuesOfItems?, value?_eq hleaves hkeys, valuesOfItems?_eq hleavesRest hkeysRest,
      areFullItems, recordedItems]
    -- A hole in either part leaves no value for the whole.
    cases e.isFull <;> cases areFullItems rest <;> rfl

theorem valuesOfEntries?_eq : ∀ {entries : List (Key × Expression)},
    (∀ l ∈ leavesOfEntries entries, l.isExact) → (∀ k ∈ keysOfEntries entries, k.isKept) →
      valuesOfEntries? entries =
        if areFullEntries entries then some (recordedEntries entries) else none
  | [], _, _ => rfl
  | (k, e) :: rest, hleaves, hkeys => by
    obtain ⟨hleaves, hleavesRest⟩ := List.forall_mem_append.1 hleaves
    obtain ⟨hkept, hkeys⟩ := List.forall_mem_cons.1 hkeys
    obtain ⟨hkeys, hkeysRest⟩ := List.forall_mem_append.1 hkeys
    simp only [Key.isKept, Bool.and_eq_true, decide_eq_true_eq] at hkept
    rw [valuesOfEntries?, value?_eq hleaves hkeys, valuesOfEntries?_eq hleavesRest hkeysRest,
      areFullEntries, recordedEntries, hkept.1]
    cases e.isFull <;> cases areFullEntries rest <;> simp [hkept.2]

end

end Expression

end Literal

open Literal

namespace Syntax.Source

/-- **What is recorded for a literal is its value exactly if no array in it has a hole.** -/
theorem toJson?_eq_value?_iff {s : Source} {e : Expression} {t : Tree} (h : s.spells e t)
    (hleaves : ∀ l ∈ e.leaves, l.isExact) (hkeys : ∀ k ∈ e.keys, k.isKept) :
    (s.classify t).toJson? = e.value? ↔ e.isFull := by
  rw [toJson?_classify_of_spells h fun l hl => Leaf.fits_of_isExact (hleaves l hl),
    Expression.value?_eq hleaves hkeys]
  cases e.isFull <;> simp

/-- A literal with a hole between two items, one of which is an object. -/
def holed : Expression :=
  .array [some (.leaf (.whole true ['1'])), none,
    some (.object [(.identifier [.plain 'k'], .leaf .null), (.number ['2'], .leaf (.bool true))])]

/-- What is recorded for a literal with a hole is not its value. -/
theorem toJson?_eq_value?_iff_holed : ∃ s, parse "x=[-1,,\x7bk:null,2:true\x7d]" = .ok s ∧
    ∃ t ∈ s.root.nodes, s.spells holed t ∧ (∀ l ∈ holed.leaves, l.isExact) ∧
      (∀ k ∈ holed.keys, k.isKept) ∧
      ((s.classify t).toJson? = holed.value? ↔ holed.isFull) := by
  have hread : (parse "x=[-1,,\x7bk:null,2:true\x7d]").toOption.any fun s =>
      s.root.nodes.any (s.spells holed) := by
    decide +kernel
  have hleaves : ∀ l ∈ holed.leaves, l.isExact := by decide +kernel
  have hkeys : ∀ k ∈ holed.keys, k.isKept := by decide +kernel
  obtain ⟨s, hs, hany⟩ := Option.any_eq_true _ _ |>.1 hread
  obtain ⟨t, ht, hspells⟩ := List.any_eq_true.1 hany
  exact ⟨s, eq_ok_of_toOption hs, t, ht, hspells, hleaves, hkeys,
    toJson?_eq_value?_iff hspells hleaves hkeys⟩

end Syntax.Source

end FlowAnalysis
