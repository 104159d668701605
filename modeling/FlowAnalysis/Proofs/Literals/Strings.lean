import FlowAnalysis.Flow.Literal
import FlowAnalysis.Proofs.Syntax.Sources
import Mathlib.Data.List.Basic
import Mathlib.Data.List.Count

/-!
# What strings stand for

The language says of every piece of a string or of a template which code units it stands for, two of
which make up a character beyond the basic ones.  Reading a string goes piece by piece and gives the
characters that the code units make up, except where one of two code units is escaped by itself, or
a template has a line end with a carriage return.

## Main definitions

* `unitsOf`, `textUnits` — the code units of a character and of a text.
* `Piece`, `Piece.text`, `Piece.units` — the pieces of strings and templates, how they are written
  and which code units they stand for.
* `Delimiter.admitsAll` — the pieces that the language allows between quotes, one after the other.
* `Piece.read` — the characters that are read for a piece.
* `Piece.isHalf`, `Piece.isFolded` — the pieces that are not read as what they stand for.
* `Source.quotes` — a node is a string or a template made up of some pieces.

## Main results

* `textUnits_injective` — a text is told by its code units.
* `unescape_textOf` — **a string is read piece by piece.**
* `Piece.textUnits_read` — the other pieces are read as what they stand for.
* `unescape_eq_iff`, `Source.stringValue?_eq_iff` — **the value of a string is read exactly if no
  code unit is escaped by half and no line end is folded.**
-/

namespace FlowAnalysis

open Syntax

namespace Literal

/-! ### Code units -/

/-- The code units of the character with a number. -/
def unitsOf (n : Nat) : List Nat :=
  if n < 0x10000 then [n]
  else [0xD800 + (n - 0x10000) / 0x400, 0xDC00 + (n - 0x10000) % 0x400]

/-- The code units of a text. -/
def textUnits (text : List Char) : List Nat := text.flatMap fun c => unitsOf c.toNat

/-- Whether a code unit is one of two that make up a character. -/
def isHalfUnit (u : Nat) : Bool := 0xD800 ≤ u && u < 0xE000

@[simp] theorem textUnits_nil : textUnits [] = [] := rfl

@[simp] theorem textUnits_cons (c : Char) (text : List Char) :
    textUnits (c :: text) = unitsOf c.toNat ++ textUnits text := rfl

@[simp] theorem textUnits_append (a b : List Char) :
    textUnits (a ++ b) = textUnits a ++ textUnits b := List.flatMap_append

/-- No character has the number of half of one. -/
theorem isHalfUnit_toNat (c : Char) : isHalfUnit c.toNat = false := by
  have hvalid : c.toNat.isValidChar := c.valid
  simp only [isHalfUnit, Bool.and_eq_false_iff, decide_eq_false_iff_not]
  unfold Nat.isValidChar at hvalid
  omega

theorem isValidChar_iff {n : Nat} : n.isValidChar ↔ isHalfUnit n = false ∧ n ≤ 0x10FFFF := by
  simp only [isHalfUnit, Bool.and_eq_false_iff, decide_eq_false_iff_not, Nat.isValidChar]
  omega

/-- The first character of a text is told by its code units. -/
theorem unitsOf_append_inj {m n : Nat} (hm : isHalfUnit m = false) (hn : isHalfUnit n = false)
    (hm' : m ≤ 0x10FFFF) (hn' : n ≤ 0x10FFFF) {us vs : List Nat}
    (h : unitsOf m ++ us = unitsOf n ++ vs) : m = n ∧ us = vs := by
  simp only [isHalfUnit, Bool.and_eq_false_iff, decide_eq_false_iff_not] at hm hn
  unfold unitsOf at h
  split at h <;> split at h <;> simp only [List.cons_append, List.nil_append, List.cons.injEq] at h
  · exact ⟨h.1, h.2⟩
  · omega
  · omega
  · exact ⟨by omega, h.2.2⟩

/-- **A text is told by its code units.** -/
theorem textUnits_injective {a b : List Char} (h : textUnits a = textUnits b) : a = b := by
  have hne : ∀ n : Nat, unitsOf n ≠ [] := fun n => by unfold unitsOf; split <;> simp
  induction a generalizing b with
  | nil =>
    cases b with
    | nil => rfl
    | cons d b => simp [hne] at h
  | cons c a ih =>
    cases b with
    | nil => simp [hne] at h
    | cons d b =>
      obtain ⟨heq, htail⟩ := unitsOf_append_inj (isHalfUnit_toNat c) (isHalfUnit_toNat d)
        (isValidChar_iff.1 c.valid).2 (isValidChar_iff.1 d.valid).2 h
      rw [Char.toNat_inj.1 heq, ih htail]

/-- A character that is no half of one is as frequent as its code unit. -/
theorem count_textUnits {c : Char} (hc : c.toNat < 0xD800) (text : List Char) :
    (textUnits text).count c.toNat = text.count c := by
  induction text with
  | nil => rfl
  | cons d text ih =>
    have hunits : (unitsOf d.toNat).count c.toNat = if d = c then 1 else 0 := by
      unfold unitsOf
      split
      · simp [List.count_cons, Char.toNat_inj]
      · have hne : d ≠ c := by
          rintro rfl
          omega
        simp only [hne, if_false, List.count_eq_zero, List.mem_cons, List.not_mem_nil, or_false]
        omega
    rw [textUnits_cons, List.count_append, hunits, ih, List.count_cons, Nat.add_comm]
    simp

/-! ### Pieces of strings and templates -/

/-- A hexadecimal digit, as a capital letter or not. -/
structure HexDigit where
  value : Fin 16
  upper : Bool
  deriving DecidableEq, Repr

/-- The last hexadecimal digit of a number. -/
def HexDigit.ofNat (n : Nat) : HexDigit := ⟨⟨n % 16, Nat.mod_lt n (by decide)⟩, false⟩

/-- A hexadecimal digit as it is written. -/
def HexDigit.char (d : HexDigit) : Char :=
  if d.upper then (Nat.digitChar d.value).toUpper else Nat.digitChar d.value

/-- The number that hexadecimal digits stand for. -/
def hexValue (ds : List HexDigit) : Nat := ds.foldl (fun n d => n * 16 + d.value) 0

/-- The ends of lines. -/
inductive LineEnd
  | lineFeed
  | carriageReturn
  | both
  | lineSeparator
  | paragraphSeparator
  deriving DecidableEq, Repr

/-- The end of a line as it is written. -/
def LineEnd.text : LineEnd → List Char
  | lineFeed => ['\n']
  | carriageReturn => ['\r']
  | both => ['\r', '\n']
  | lineSeparator => [Char.ofNat 0x2028]
  | paragraphSeparator => [Char.ofNat 0x2029]

/-- The number of the character that a backslash and a character stand for. -/
def escapedNumber : Char → Nat
  | '0' => 0
  | 'b' => 8
  | 't' => 9
  | 'n' => 10
  | 'v' => 11
  | 'f' => 12
  | 'r' => 13
  | c => c.toNat

/-- A piece of a string or of a template. -/
inductive Piece
  /-- A character that stands for itself. -/
  | plain (c : Char)
  /-- The end of a line in a template. -/
  | lineEnd (e : LineEnd)
  /-- A backslash and a character. -/
  | escape (c : Char)
  /-- A backslash in front of the end of a line, which is left out. -/
  | joint (e : LineEnd)
  /-- A code unit in two digits. -/
  | short (a b : HexDigit)
  /-- A code unit in four digits. -/
  | long (a b c d : HexDigit)
  /-- The number of a character, or half of one, in braces. -/
  | braced (ds : List HexDigit)
  deriving DecidableEq, Repr

namespace Piece

/-- A piece as it is written. -/
def text : Piece → List Char
  | plain c => [c]
  | lineEnd e => e.text
  | escape c => ['\\', c]
  | joint e => '\\' :: e.text
  | short a b => ['\\', 'x', a.char, b.char]
  | long a b c d => ['\\', 'u', a.char, b.char, c.char, d.char]
  | braced ds => '\\' :: 'u' :: '\x7b' :: (ds.map HexDigit.char ++ ['\x7d'])

/-- The code units that a piece stands for: carriage returns at the end of a line are not among
them. -/
def units : Piece → List Nat
  | plain c => unitsOf c.toNat
  | lineEnd .lineSeparator => [0x2028]
  | lineEnd .paragraphSeparator => [0x2029]
  | lineEnd _ => [10]
  | escape c => unitsOf (escapedNumber c)
  | joint _ => []
  | short a b => [hexValue [a, b]]
  | long a b c d => [hexValue [a, b, c, d]]
  | braced ds => unitsOf (hexValue ds)

/-- Whether a piece is one of two code units that make up a character. -/
def isHalf : Piece → Bool
  | long a b c d => isHalfUnit (hexValue [a, b, c, d])
  | braced ds => isHalfUnit (hexValue ds)
  | _ => false

/-- Whether a piece is the end of a line with a carriage return, which does not stand for itself. -/
def isFolded : Piece → Bool
  | lineEnd .carriageReturn | lineEnd .both => true
  | _ => false

/-- The characters that are read for a piece. -/
def read : Piece → List Char
  | plain c => [c]
  | lineEnd e => e.text
  | escape c => [simpleEscape c]
  | joint _ => []
  | short a b => codePoint 'x' [a.char, b.char]
  | long a b c d => codePoint 'u' [a.char, b.char, c.char, d.char]
  | braced ds => codePoint 'u' (ds.map HexDigit.char)

end Piece

/-- Some pieces as they are written. -/
def textOf (ps : List Piece) : List Char := ps.flatMap Piece.text

/-- The quotes around a string or a template. -/
inductive Delimiter
  | single
  | double
  | back
  deriving DecidableEq, Repr

namespace Delimiter

/-- The quotes as they are written. -/
def char : Delimiter → Char
  | single => '\''
  | double => '"'
  | back => '\x60'

/-- Whether a piece may stand between quotes.  An escaped digit other than zero is none. -/
def admits (q : Delimiter) : Piece → Bool
  | .plain c => c ≠ q.char && c ≠ '\\' && c ≠ '\n' && c ≠ '\r'
  | .lineEnd _ => q = .back
  | .escape c => c ≠ 'x' && c ≠ 'u' && !('1' ≤ c && c ≤ '9') && c ≠ '\r' && !isJoint c
  | .braced ds => ds ≠ [] && hexValue ds ≤ 0x10FFFF
  | _ => true

/-- Whether a piece may stand in front of a text: it must not be the beginning of a longer one. -/
def admitsBefore (q : Delimiter) : Piece → List Char → Bool
  | .plain '$', '\x7b' :: _ => q ≠ .back
  | .escape '0', d :: _ => !d.isDigit
  | .lineEnd .carriageReturn, '\n' :: _ => false
  | .joint .carriageReturn, '\n' :: _ => false
  | _, _ => true

/-- Whether pieces may stand one after the other between quotes. -/
def admitsAll (q : Delimiter) : List Piece → Bool
  | [] => true
  | p :: ps => q.admits p && q.admitsBefore p (textOf ps) && q.admitsAll ps

end Delimiter

/-! ### Digits -/

theorem HexDigit.isHexDigit_char (d : HexDigit) : Lexeme.isHexDigit d.char := by
  obtain ⟨value, upper⟩ := d
  revert value upper
  decide

theorem HexDigit.digit_char (d : HexDigit) :
    (if d.char.isDigit then d.char.toNat - 48 else d.char.toLower.toNat - 87) = d.value := by
  obtain ⟨value, upper⟩ := d
  revert value upper
  decide

theorem HexDigit.char_ne {c : Char} (hc : Lexeme.isHexDigit c = false) (d : HexDigit) :
    d.char ≠ c := by
  rintro rfl
  simp [d.isHexDigit_char] at hc

/-- Digits are read as the number that they stand for. -/
theorem hexNumber?_map_char {ds : List HexDigit} (h : ds ≠ []) :
    hexNumber? (ds.map HexDigit.char) = some (hexValue ds) := by
  have hall : (ds.map HexDigit.char).all Lexeme.isHexDigit := by
    simp [HexDigit.isHexDigit_char]
  rw [hexNumber?, if_pos (by simp [h, hall]), List.foldl_map]
  simp only [HexDigit.digit_char]
  rfl

/-- Digits escape the character with their number. -/
theorem codePoint_map_char (marker : Char) {ds : List HexDigit} (h : ds ≠ []) :
    codePoint marker (ds.map HexDigit.char) =
      if (hexValue ds).isValidChar then [Char.ofNat (hexValue ds)]
      else '\\' :: marker :: ds.map HexDigit.char := by
  rw [codePoint, hexNumber?_map_char h]

theorem toNat_ofNat {n : Nat} (h : n.isValidChar) : (Char.ofNat n).toNat = n := by
  rw [Char.ofNat, dif_pos h]
  rfl

/-! ### Reading -/

theorem unescapeUpTo_plain {n : Nat} {c : Char} (hc : c ≠ '\\') (rest : List Char) :
    unescapeUpTo (n + 1) (c :: rest) = c :: unescapeUpTo n rest := by
  rw [unescapeUpTo] <;> simp [hc]

theorem unescapeUpTo_escape {n : Nat} {c : Char} (hx : c ≠ 'x') (hu : c ≠ 'u') (hr : c ≠ '\r')
    (hj : isJoint c = false) (rest : List Char) :
    unescapeUpTo (n + 1) ('\\' :: c :: rest) = simpleEscape c :: unescapeUpTo n rest := by
  rw [unescapeUpTo] <;> simp [hx, hu, hr, hj]

theorem unescapeUpTo_joint {n : Nat} (e : LineEnd) {rest : List Char}
    (h : e = .carriageReturn → rest.head? ≠ some '\n') :
    unescapeUpTo (n + 1) ('\\' :: (e.text ++ rest)) = unescapeUpTo n rest := by
  cases e with
  | carriageReturn =>
    cases rest with
    | nil => rfl
    | cons d rest =>
      have hd : d ≠ '\n' := by simpa using h rfl
      rw [LineEnd.text, List.singleton_append, unescapeUpTo]
      simp [hd]
  | _ => rfl

theorem unescapeUpTo_short {n : Nat} (a b : Char) (rest : List Char) :
    unescapeUpTo (n + 1) ('\\' :: 'x' :: a :: b :: rest) =
      codePoint 'x' [a, b] ++ unescapeUpTo n rest := rfl

theorem unescapeUpTo_long {n : Nat} {a : Char} (ha : a ≠ '\x7b') (b c d : Char) (rest : List Char) :
    unescapeUpTo (n + 1) ('\\' :: 'u' :: a :: b :: c :: d :: rest) =
      codePoint 'u' [a, b, c, d] ++ unescapeUpTo n rest := by
  rw [unescapeUpTo] <;> simp [ha]

theorem unescapeUpTo_braced {n : Nat} {ds : List Char} (hds : ∀ d ∈ ds, d ≠ '\x7d')
    (rest : List Char) :
    unescapeUpTo (n + 1) ('\\' :: 'u' :: '\x7b' :: (ds ++ '\x7d' :: rest)) =
      codePoint 'u' ds ++ unescapeUpTo n rest := by
  rw [unescapeUpTo, List.takeWhile_append_of_pos (by simpa using hds),
    List.dropWhile_append_of_pos (by simpa using hds)]
  simp

/-- A piece in front of a text is read by itself, whatever is read for the text. -/
theorem unescapeUpTo_text_append {q : Delimiter} {p : Piece} {rest value : List Char}
    (hp : q.admits p) (hbefore : q.admitsBefore p rest)
    (hrest : ∀ m, rest.length < m → unescapeUpTo m rest = value) {n : Nat}
    (hn : (p.text ++ rest).length < n) : unescapeUpTo n (p.text ++ rest) = p.read ++ value := by
  obtain ⟨n, rfl⟩ : ∃ m, n = m + 1 := ⟨n - 1, by omega⟩
  cases p with
  | plain c =>
    simp only [Delimiter.admits, Bool.and_eq_true, decide_eq_true_eq] at hp
    rw [← hrest n (by simpa [Piece.text] using hn)]
    exact unescapeUpTo_plain hp.1.1.2 rest
  | lineEnd e =>
    -- Two characters are read for a line end that is written with two.
    cases e with
    | both =>
      obtain ⟨n, rfl⟩ : ∃ m, n = m + 1 := ⟨n - 1, by simp [Piece.text, LineEnd.text] at hn; omega⟩
      rw [← hrest n (by simpa [Piece.text, LineEnd.text] using hn)]
      rfl
    | _ =>
      rw [← hrest n (by simpa [Piece.text, LineEnd.text] using hn)]
      rfl
  | escape c =>
    simp only [Delimiter.admits, Bool.and_eq_true, decide_eq_true_eq, Bool.not_eq_true'] at hp
    rw [← hrest n (by simp [Piece.text] at hn; omega)]
    exact unescapeUpTo_escape hp.1.1.1.1 hp.1.1.1.2 hp.1.2 hp.2 rest
  | joint e =>
    rw [← hrest n (by simp [Piece.text] at hn; omega)]
    refine unescapeUpTo_joint e ?_
    rintro rfl
    cases rest with
    | nil => simp
    | cons d rest =>
      intro hd
      obtain rfl : d = '\n' := by simpa using hd
      simp [Delimiter.admitsBefore] at hbefore
  | short a b =>
    rw [← hrest n (by simp [Piece.text] at hn; omega)]
    exact unescapeUpTo_short _ _ rest
  | long a b c d =>
    rw [← hrest n (by simp [Piece.text] at hn; omega)]
    exact unescapeUpTo_long (HexDigit.char_ne rfl a) _ _ _ rest
  | braced ds =>
    rw [← hrest n (by simp [Piece.text] at hn; omega)]
    have hds : ∀ d ∈ ds.map HexDigit.char, d ≠ '\x7d' := by
      rw [List.forall_mem_map]
      exact fun d _ => d.char_ne rfl
    simpa [Piece.text, Piece.read] using unescapeUpTo_braced hds rest

/-- **A string is read piece by piece.** -/
theorem unescape_textOf {q : Delimiter} {ps : List Piece} (h : q.admitsAll ps) :
    unescape (textOf ps) = ps.flatMap Piece.read := by
  suffices hall : ∀ n, (textOf ps).length < n → unescapeUpTo n (textOf ps) = ps.flatMap Piece.read by
    exact hall _ (Nat.lt_succ_self _)
  induction ps with
  | nil =>
    intro n hn
    obtain ⟨m, rfl⟩ : ∃ m, n = m + 1 := ⟨n - 1, by simp [textOf] at hn; omega⟩
    rfl
  | cons p ps ih =>
    simp only [Delimiter.admitsAll, Bool.and_eq_true] at h
    intro n hn
    exact unescapeUpTo_text_append h.1.1 h.1.2 (ih h.2) hn

/-! ### Values -/

theorem toNat_simpleEscape (c : Char) : (simpleEscape c).toNat = escapedNumber c := by
  unfold simpleEscape escapedNumber
  split <;> simp_all

/-- Digits of a character stand for its code units. -/
theorem textUnits_codePoint (marker : Char) (ds : List HexDigit) (h : ds ≠ [])
    (hvalid : (hexValue ds).isValidChar) :
    textUnits (codePoint marker (ds.map HexDigit.char)) = unitsOf (hexValue ds) := by
  rw [codePoint_map_char marker h, if_pos hvalid, textUnits_cons, toNat_ofNat hvalid,
    textUnits_nil, List.append_nil]

/-- **What is neither half of a character nor a folded line end is read as what it stands for.** -/
theorem Piece.textUnits_read {q : Delimiter} {p : Piece} (hp : q.admits p) (hhalf : p.isHalf = false)
    (hfolded : p.isFolded = false) : textUnits p.read = p.units := by
  cases p with
  | plain c => exact List.append_nil _
  | lineEnd e =>
    cases e with
    | carriageReturn | both => simp [isFolded] at hfolded
    | _ => rfl
  | escape c => rw [read, textUnits_cons, toNat_simpleEscape, textUnits_nil, List.append_nil]; rfl
  | joint e => rfl
  | short a b =>
    have hlt : hexValue [a, b] < 0x10000 := by
      simp only [hexValue, List.foldl_cons, List.foldl_nil]
      omega
    have hsmall : hexValue [a, b] < 0xD800 := by
      simp only [hexValue, List.foldl_cons, List.foldl_nil]
      omega
    have h := textUnits_codePoint 'x' [a, b] nofun (.inl hsmall)
    rwa [unitsOf, if_pos hlt] at h
  | long a b c d =>
    have hlt : hexValue [a, b, c, d] < 0x10000 := by
      simp only [hexValue, List.foldl_cons, List.foldl_nil]
      omega
    have h := textUnits_codePoint 'u' [a, b, c, d] nofun
      (isValidChar_iff.2 ⟨hhalf, by omega⟩)
    rwa [unitsOf, if_pos hlt] at h
  | braced ds =>
    simp only [Delimiter.admits, Bool.and_eq_true, decide_eq_true_eq] at hp
    exact textUnits_codePoint 'u' ds hp.1 (isValidChar_iff.2 ⟨hhalf, hp.2⟩)

/-- What is read for half of a character is the escape as it is written, without braces. -/
theorem Piece.read_of_isHalf {p : Piece} (h : p.isHalf) :
    ∃ ds u, p.read = '\\' :: 'u' :: ds ∧ (∀ d ∈ ds, Lexeme.isHexDigit d) ∧ p.units = [u] ∧
      isHalfUnit u := by
  have hread : ∀ ds : List HexDigit, ds ≠ [] → isHalfUnit (hexValue ds) →
      codePoint 'u' (ds.map HexDigit.char) = '\\' :: 'u' :: ds.map HexDigit.char := by
    intro ds hne hhalf
    rw [codePoint_map_char 'u' hne, if_neg]
    exact fun hvalid => by simp [(isValidChar_iff.1 hvalid).1] at hhalf
  have hdigits : ∀ ds : List HexDigit, ∀ d ∈ ds.map HexDigit.char, Lexeme.isHexDigit d := by
    intro ds
    rw [List.forall_mem_map]
    exact fun d _ => d.isHexDigit_char
  cases p with
  | long a b c d => exact ⟨_, _, hread [a, b, c, d] nofun h, hdigits _, rfl, h⟩
  | braced ds =>
    have hlt : hexValue ds < 0x10000 := by
      simp only [isHalf, isHalfUnit, Bool.and_eq_true, decide_eq_true_eq] at h
      omega
    refine ⟨_, _, hread ds ?_ h, hdigits _, by rw [units, unitsOf, if_pos hlt], h⟩
    rintro rfl
    simp [isHalf, hexValue, isHalfUnit] at h
  | _ => simp [isHalf] at h

/-- No half of a character is a folded line end. -/
theorem Piece.isFolded_of_isHalf {p : Piece} (h : p.isHalf) : p.isFolded = false := by
  cases p with
  | long | braced => rfl
  | _ => simp [isHalf] at h

/-- What is read for a piece has a backslash more than it stands for exactly if it is half of a
character, and a carriage return more exactly if it is a folded line end. -/
theorem Piece.count_read {q : Delimiter} {p : Piece} (hp : q.admits p) :
    p.read.count '\\' = p.units.count 0x5C + (if p.isHalf then 1 else 0) ∧
      p.read.count '\r' = p.units.count 0x0D + (if p.isFolded then 1 else 0) := by
  by_cases hhalf : p.isHalf
  · obtain ⟨ds, u, hread, hds, hunits, hu⟩ := read_of_isHalf hhalf
    have hbackslash : ds.count '\\' = 0 := List.count_eq_zero.2 fun h => nomatch hds _ h
    have hreturn : ds.count '\r' = 0 := List.count_eq_zero.2 fun h => nomatch hds _ h
    simp only [isHalfUnit, Bool.and_eq_true, decide_eq_true_eq] at hu
    have hne : u ≠ 0x5C ∧ u ≠ 0x0D := by omega
    simp [hread, hunits, hhalf, isFolded_of_isHalf hhalf, hbackslash, hreturn, hne]
  · by_cases hfolded : p.isFolded
    · cases p with
      | lineEnd e =>
        cases e with
        | carriageReturn | both => decide
        | _ => simp [isFolded] at hfolded
      | _ => simp [isFolded] at hfolded
    · rw [← textUnits_read hp (by simpa using hhalf) (by simpa using hfolded)]
      rw [if_neg hhalf, if_neg hfolded]
      exact ⟨(count_textUnits (c := '\\') (by decide) _).symm,
        (count_textUnits (c := '\r') (by decide) _).symm⟩

/-- What is read for some pieces has as many backslashes more than they stand for as there are
halves of characters, and as many carriage returns more as there are folded line ends. -/
theorem count_flatMap_read {q : Delimiter} {ps : List Piece} (h : q.admitsAll ps) :
    (ps.flatMap Piece.read).count '\\' =
        (ps.flatMap Piece.units).count 0x5C + ps.countP Piece.isHalf ∧
      (ps.flatMap Piece.read).count '\r' =
        (ps.flatMap Piece.units).count 0x0D + ps.countP Piece.isFolded := by
  induction ps with
  | nil => exact ⟨rfl, rfl⟩
  | cons p ps ih =>
    simp only [Delimiter.admitsAll, Bool.and_eq_true] at h
    obtain ⟨hbackslash, hreturn⟩ := ih h.2
    obtain ⟨hbackslash', hreturn'⟩ := Piece.count_read h.1.1
    simp only [List.flatMap_cons, List.count_append, List.countP_cons]
    omega

/-- **The value of a string is read exactly if no character is escaped by halves and no line end is
folded.** -/
theorem unescape_eq_iff {q : Delimiter} {ps : List Piece} (h : q.admitsAll ps) {value : List Char}
    (hvalue : textUnits value = ps.flatMap Piece.units) :
    unescape (textOf ps) = value ↔ ∀ p ∈ ps, p.isHalf = false ∧ p.isFolded = false := by
  rw [unescape_textOf h]
  constructor
  · rintro rfl
    obtain ⟨hbackslash, hreturn⟩ := count_flatMap_read h
    have hbackslash' := count_textUnits (c := '\\') (by decide) (ps.flatMap Piece.read)
    have hreturn' := count_textUnits (c := '\r') (by decide) (ps.flatMap Piece.read)
    rw [hvalue] at hbackslash' hreturn'
    have hhalf : ps.countP Piece.isHalf = 0 := by
      change _ = List.count '\\' _ at hbackslash'
      change List.count 0x5C _ = _ at hbackslash'
      omega
    have hfolded : ps.countP Piece.isFolded = 0 := by
      change List.count 0x0D _ = _ at hreturn'
      omega
    rw [List.countP_eq_zero] at hhalf hfolded
    exact fun p hp => ⟨by simpa using hhalf p hp, by simpa using hfolded p hp⟩
  · intro hdirect
    refine textUnits_injective ?_
    rw [hvalue]
    clear hvalue
    induction ps with
    | nil => rfl
    | cons p ps ih =>
      simp only [Delimiter.admitsAll, Bool.and_eq_true] at h
      rw [List.forall_mem_cons] at hdirect
      rw [List.flatMap_cons, List.flatMap_cons, textUnits_append, ih h.2 hdirect.2,
        Piece.textUnits_read h.1.1 hdirect.1.1 hdirect.1.2]

/-- Whether a node is a string in some quotes, or a template without substitutions. -/
def Delimiter.encloses (q : Delimiter) (t : Tree) : Bool :=
  if q = .back then t.is .templateString && !t.children.any (·.is .templateSubstitution)
  else t.is .string

end Literal

open Literal

namespace Syntax.Source

/-- Whether a node is a string or a template that is made up of some pieces. -/
def quotes (s : Source) (q : Delimiter) (ps : List Piece) (t : Tree) : Bool :=
  q.encloses t && s.chars t = q.char :: (Literal.textOf ps ++ [q.char]) && q.admitsAll ps

/-- What stands between the quotes is read. -/
theorem stringValue?_of_quotes {s : Source} {q : Delimiter} {ps : List Piece} {t : Tree}
    (h : s.quotes q ps t) : s.stringValue? t = some (String.ofList (unescape (Literal.textOf ps))) := by
  simp only [quotes, Bool.and_eq_true, decide_eq_true_eq] at h
  obtain ⟨⟨hkind, hchars⟩, -⟩ := h
  have hinside : inside (s.chars t) = Literal.textOf ps := by rw [hchars, inside]; simp
  have hlength : ¬ (s.chars t).length < 2 := by
    rw [hchars]
    simp
  have hstring : t.is .string || t.is .templateString &&
      !t.children.any (·.is .templateSubstitution) := by
    unfold Delimiter.encloses at hkind
    split at hkind <;> simp [hkind]
  rw [stringValue?, if_neg hlength, if_pos hstring, hinside]

/-- **The value of a string or of a template is read exactly if no character in it is escaped by
halves and no line end is folded.** -/
theorem stringValue?_eq_iff {s : Source} {q : Delimiter} {ps : List Piece} {t : Tree}
    (h : s.quotes q ps t) {value : String}
    (hvalue : textUnits value.toList = ps.flatMap Piece.units) :
    s.stringValue? t = some value ↔ ∀ p ∈ ps, p.isHalf = false ∧ p.isFolded = false := by
  have hadmitted : q.admitsAll ps := (Bool.and_eq_true_iff.1 h).2
  rw [← unescape_eq_iff hadmitted hvalue, stringValue?_of_quotes h, Option.some_inj,
    ← String.toList_inj, String.toList_ofList]

/-- The pieces of a character that is escaped by halves. -/
def halves : List Piece :=
  [.long (.ofNat 0xD) (.ofNat 8) (.ofNat 3) (.ofNat 0xD),
    .long (.ofNat 0xD) (.ofNat 0xE) (.ofNat 0) (.ofNat 0)]

/-- A character that is escaped by halves is not read. -/
theorem stringValue?_eq_iff_halves : ∃ s, parse "x='\\ud83d\\ude00'" = .ok s ∧
    ∃ t ∈ s.root.nodes, s.quotes .single halves t ∧
      textUnits "😀".toList = halves.flatMap Piece.units ∧
      (s.stringValue? t = some "😀" ↔ ∀ p ∈ halves, p.isHalf = false ∧ p.isFolded = false) := by
  have hread : (parse "x='\\ud83d\\ude00'").toOption.any fun s =>
      s.root.nodes.any (s.quotes .single halves) := by
    decide +kernel
  obtain ⟨s, hs, hany⟩ := Option.any_eq_true _ _ |>.1 hread
  obtain ⟨t, ht, hquotes⟩ := List.any_eq_true.1 hany
  have hvalue : textUnits "😀".toList = halves.flatMap Piece.units := by decide
  exact ⟨s, eq_ok_of_toOption hs, t, ht, hquotes, hvalue, stringValue?_eq_iff hquotes hvalue⟩

end Syntax.Source

end FlowAnalysis
