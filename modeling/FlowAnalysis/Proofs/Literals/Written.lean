import FlowAnalysis.Proofs.Classification
import FlowAnalysis.Proofs.Literals.Strings

/-!
# Literals as they are written

An array or an object whose parts are literals down to the leaves, with the holes of its arrays and
the spelling of its keys.  A tree that spells one is classified as a literal throughout, and its
value is made up of what the leaves stand for: holes are closed up, and of the keys only strings are
read.

## Main definitions

* `Leaf`, `Key`, `Expression` — literals as they are written.
* `Source.spells` — a tree is that of a literal.
* `Leaf.fits` — a whole number fits into 64 bits.
* `Expression.recorded` — the value that is recorded for a literal.

## Main results

* `Source.toJson?_classify_of_spells` — **the value of a tree that spells a literal.**
-/

namespace FlowAnalysis

open Syntax

namespace Literal

/-- A literal without parts. -/
inductive Leaf
  | null
  | bool (b : Bool)
  /-- Decimal digits, with a minus in front or not. -/
  | whole (negative : Bool) (digits : List Char)
  | string (q : Delimiter) (ps : List Piece)
  deriving DecidableEq, Repr

/-- The key of a property. -/
inductive Key
  /-- An identifier, made up of characters and of escapes of characters. -/
  | identifier (ps : List Piece)
  | string (q : Delimiter) (ps : List Piece)
  | number (text : List Char)
  deriving DecidableEq, Repr

/-- A literal. -/
inductive Expression
  | leaf (l : Leaf)
  /-- An array; a hole is an item that is left out. -/
  | array (items : List (Option Expression))
  | object (entries : List (Key × Expression))

/-! ### Values -/

/-- The whole number that decimal digits with underscores among them and a minus stand for. -/
def wholeValue (negative : Bool) (digits : List Char) : Int :=
  let n := digitsValue 10 (digits.filter (· ≠ '_'))
  if negative then -(n : Int) else n

/-- Whether a leaf is no whole number, or one that fits into 64 bits. -/
def Leaf.fits : Leaf → Bool
  | whole negative digits =>
    digits.all (fun c => c.isDigit || c = '_') && fitsWord (wholeValue negative digits)
  | _ => true

/-- The value that is recorded for a leaf. -/
def Leaf.recorded : Leaf → Json
  | null => .null
  | bool b => .bool b
  | whole negative digits => .int (wholeValue negative digits)
  | string _ ps => .string (String.ofList (ps.flatMap Piece.read))

/-- The name that is recorded for a key: only strings are read. -/
def Key.recorded : Key → String
  | identifier ps => String.ofList (textOf ps)
  | string _ ps => String.ofList (ps.flatMap Piece.read)
  | number text => String.ofList text

namespace Expression

mutual

/-- The leaves of a literal. -/
def leaves : Expression → List Leaf
  | leaf l => [l]
  | array items => leavesOfItems items
  | object entries => leavesOfEntries entries

/-- The leaves of some items. -/
def leavesOfItems : List (Option Expression) → List Leaf
  | [] => []
  | none :: rest => leavesOfItems rest
  | some e :: rest => leaves e ++ leavesOfItems rest

/-- The leaves of some entries. -/
def leavesOfEntries : List (Key × Expression) → List Leaf
  | [] => []
  | (_, e) :: rest => leaves e ++ leavesOfEntries rest

end

mutual

/-- The value that is recorded for a literal. -/
def recorded : Expression → Json
  | leaf l => l.recorded
  | array items => .array (recordedItems items)
  | object entries => .object (Keyed.sorted Keyed.stringLt (recordedEntries entries))

/-- The values that are recorded for some items. -/
def recordedItems : List (Option Expression) → List Json
  | [] => []
  | none :: rest => recordedItems rest
  | some e :: rest => recorded e :: recordedItems rest

/-- The names and values that are recorded for some entries. -/
def recordedEntries : List (Key × Expression) → List (String × Json)
  | [] => []
  | (k, e) :: rest => (k.recorded, recorded e) :: recordedEntries rest

end

end Expression

end Literal

open Literal

/-! ### Trees -/

namespace Syntax.Tree

/-- The children of a node between two marks, comments left out. -/
def between (opening closing : String) (t : Tree) : Option (List Tree) :=
  match t.children.filter fun c => !c.is .comment with
  | first :: rest =>
    if first.isToken opening && rest.getLast?.any (·.isToken closing) then some rest.dropLast
    else none
  | [] => none

end Syntax.Tree

namespace Syntax.Source

/-- Whether a tree is that of a leaf. -/
def spellsLeaf (s : Source) (l : Leaf) (t : Tree) : Bool :=
  match l with
  | .null => t.is .nullLiteral
  | .bool true => t.is .trueLiteral
  | .bool false => t.is .falseLiteral
  | .whole false digits => t.is .number && s.chars t = digits
  | .whole true digits =>
    t.is .unaryExpression && (t.field? .operator).any (·.isToken "-") &&
      (t.field? .argument).any fun a => a.bare.is .number && s.chars a.bare = digits
  | .string q ps => s.quotes q ps t

/-- Whether a tree is that of a key. -/
def spellsKey (s : Source) (k : Key) (t : Tree) : Bool :=
  match k with
  | .identifier ps => t.is .propertyIdentifier && s.chars t = Literal.textOf ps
  | .string q ps => t.is .string && s.quotes q ps t
  | .number text => t.is .number && s.chars t = text

/-- Whether trees begin with a comma in front of further parts, or there are neither. -/
def continues (done : Bool) (further : List Tree → Bool) : List Tree → Bool
  | [] => done
  | t :: ts => t.isToken "," && further ts

mutual

/-- Whether a tree is that of a literal, wrappers aside. -/
def spells (s : Source) : Expression → Tree → Bool
  | .leaf l, t => s.spellsLeaf l t.bare
  | .array items, t =>
    t.bare.is .array && (t.bare.between "[" "]").any (spellsItems s items)
  | .object entries, t =>
    t.bare.is .object && (t.bare.between "\x7b" "\x7d").any (spellsEntries s entries)

/-- Whether trees are those of items and of the commas behind them.  Every hole has a comma; behind
the last item there need not be one. -/
def spellsItems (s : Source) : List (Option Expression) → List Tree → Bool
  | [], ts => ts.isEmpty
  | none :: _, [] => false
  | none :: rest, t :: ts => t.isToken "," && spellsItems s rest ts
  | some _ :: _, [] => false
  | some e :: rest, t :: ts => spells s e t && continues rest.isEmpty (spellsItems s rest) ts

/-- Whether trees are those of properties and of the commas between them. -/
def spellsEntries (s : Source) : List (Key × Expression) → List Tree → Bool
  | [], ts => ts.isEmpty
  | (_, _) :: _, [] => false
  | (k, e) :: rest, t :: ts =>
    t.is .pair && (t.field? .key).any (s.spellsKey k) && (t.field? .value).any (spells s e) &&
      continues rest.isEmpty (spellsEntries s rest) ts

end

end Syntax.Source

/-! ### Leaves -/

namespace Literal

/-- Digits announce no base. -/
theorem radixOf?_eq_none {digits : List Char} (h : ∀ c ∈ digits, c.isDigit) :
    radixOf? digits = none := by
  unfold radixOf?
  split
  · next c rest =>
    have hc : c.isDigit := h c (by simp)
    have hne : ∀ d : Char, d.isDigit = false → c ≠ d := by
      rintro d hd rfl
      simp [hc] at hd
    simp [hne 'x' rfl, hne 'X' rfl, hne 'o' rfl, hne 'O' rfl, hne 'b' rfl, hne 'B' rfl]
  · rfl

/-- **A whole number that fits into 64 bits is read as what its digits stand for.** -/
theorem numberOf?_of_fits {negative : Bool} {digits : List Char}
    (h : (Leaf.whole negative digits).fits) :
    numberOf? negative digits = some (.int (wholeValue negative digits)) := by
  simp only [Leaf.fits, Bool.and_eq_true, List.all_eq_true, Bool.or_eq_true,
    decide_eq_true_eq] at h
  obtain ⟨hdigits, hfits⟩ := h
  have hall : ∀ c ∈ digits.filter (· ≠ '_'), c.isDigit := by
    intro c hc
    obtain ⟨hmem, hne⟩ := List.mem_filter.1 hc
    exact (hdigits c hmem).resolve_right (by simpa using hne)
  -- Neither a mark behind the digits nor one in front of them is a digit.
  have hmark : digits.getLast? ≠ some 'n' := fun hlast =>
    absurd (hdigits 'n' (List.mem_of_getLast? hlast)) (by decide)
  rw [numberOf?, if_neg hmark, radixOf?_eq_none hall]
  dsimp only
  rw [if_pos]
  · rfl
  · rw [Bool.and_eq_true, List.all_eq_true]
    exact ⟨hall, hfits⟩

end Literal

namespace Syntax.Tree

variable {t : Tree} {k : Kind}

theorem isWrapper_eq_false (h : t.is k) (hk : k ∉ wrapperKinds) : t.isWrapper = false := by
  rw [Bool.eq_false_iff, ne_eq, isWrapper, isAny_iff]
  rintro ⟨k', hk', hlabel⟩
  rw [is_iff.1 h, Label.rule.injEq] at hlabel
  exact hk (hlabel ▸ hk')

/-- What is of a kind apart from wrappers is a part, and no spread element if it is none apart from
wrappers. -/
theorem isPart_of_is_bare (h : t.bare.is k) (hcomment : k ≠ .comment)
    (hspread : k ≠ .spreadElement) : Source.isPart t ∧ t.is .spreadElement = false := by
  rw [bare_eq] at h
  have hwrapper : ∀ k' ∈ wrapperKinds, k' ≠ .comment ∧ k' ≠ .spreadElement := by decide
  have hlabel : ∃ k', t.label = .rule k' ∧ k' ≠ .comment ∧ k' ≠ .spreadElement := by
    split at h
    · next hw =>
      obtain ⟨k', hk', hlabel⟩ := isAny_iff.1 hw
      exact ⟨k', hlabel, hwrapper k' hk'⟩
    · exact ⟨k, is_iff.1 h, hcomment, hspread⟩
  obtain ⟨k', hlabel, hcomment', hspread'⟩ := hlabel
  simp [Source.isPart, isNamed, is, hlabel, hcomment', hspread']

end Syntax.Tree

namespace Syntax.Source

variable {s : Source} {t : Tree}

theorem classify_of_leaf {k : Kind} (h : t.is k) (hk : k ∉ Tree.wrapperKinds) (hobject : k ≠ .object)
    (harray : k ≠ .array) : s.classify t = s.leafArgument t := by
  have hlabel := Tree.is_iff.1 h
  rw [classify_eq, Tree.isWrapper_eq_false h hk, Tree.is_eq_false_of hlabel hobject,
    Tree.is_eq_false_of hlabel harray]
  rfl

/-- A string or a template in quotes has a kind of its own. -/
theorem is_of_quotes {q : Delimiter} {ps : List Piece} (h : s.quotes q ps t) :
    t.is .string ∨ t.is .templateString := by
  simp only [quotes, Bool.and_eq_true] at h
  have hkind := h.1.1
  unfold Delimiter.encloses at hkind
  split at hkind
  · exact .inr (Bool.and_eq_true_iff.1 hkind).1
  · exact .inl hkind

/-- The text between quotes is read piece by piece. -/
theorem stringValue?_eq_read {q : Delimiter} {ps : List Piece} (h : s.quotes q ps t) :
    s.stringValue? t = some (String.ofList (ps.flatMap Piece.read)) := by
  rw [stringValue?_of_quotes h, unescape_textOf (Bool.and_eq_true_iff.1 h).2]

/-- The kinds of leaves. -/
def leafKinds : List Kind :=
  [.nullLiteral, .trueLiteral, .falseLiteral, .number, .unaryExpression, .string, .templateString]

theorem exists_is_of_spellsLeaf {l : Leaf} (h : s.spellsLeaf l t) : ∃ k ∈ leafKinds, t.is k := by
  cases l with
  | null => exact ⟨_, by decide, h⟩
  | bool b => cases b <;> exact ⟨_, by decide, h⟩
  | whole negative digits =>
    cases negative <;> simp only [spellsLeaf, Bool.and_eq_true] at h
    · exact ⟨_, by decide, h.1⟩
    · exact ⟨_, by decide, h.1.1⟩
  | string q ps => exact (is_of_quotes h).elim (⟨_, by decide, ·⟩) (⟨_, by decide, ·⟩)

/-- The argument of the tree of a number, with a minus in front of it or not. -/
theorem leafArgument_whole {negative : Bool} {digits : List Char}
    (h : s.spellsLeaf (.whole negative digits) t) :
    s.leafArgument t = ((numberOf? negative digits).map Argument.number).getD .computed := by
  have hnumber : ∀ {u : Tree}, s.chars u = digits → s.numberArgument negative u =
      ((numberOf? negative digits).map Argument.number).getD .computed := by
    rintro u rfl
    rw [numberArgument]
    cases numberOf? negative (s.chars u) <;> rfl
  cases negative <;> simp only [spellsLeaf, Bool.and_eq_true, decide_eq_true_eq] at h
  · rw [leafArgument, Tree.is_iff.1 h.1]
    exact hnumber h.2
  · obtain ⟨⟨hunary, hoperator⟩, hargument⟩ := h
    obtain ⟨o, ho, hminus⟩ := Option.any_eq_true _ _ |>.1 hoperator
    obtain ⟨a, ha, hdigits⟩ := Option.any_eq_true _ _ |>.1 hargument
    simp only [Bool.and_eq_true, decide_eq_true_eq] at hdigits
    rw [leafArgument, Tree.is_iff.1 hunary]
    dsimp only
    rw [signedArgument, ho, ha]
    dsimp only
    rw [if_pos (Bool.and_eq_true_iff.2 ⟨hminus, hdigits.1⟩)]
    exact hnumber hdigits.2

theorem toJson?_leafArgument {l : Leaf} (h : s.spellsLeaf l t) (hfits : l.fits) :
    (s.leafArgument t).toJson? = some l.recorded := by
  cases l with
  | null => rw [leafArgument, Tree.is_iff.1 h]; rfl
  | bool b => cases b <;> rw [leafArgument, Tree.is_iff.1 h] <;> rfl
  | whole negative digits =>
    rw [leafArgument_whole h, numberOf?_of_fits hfits]
    rfl
  | string q ps =>
    have hvalue := stringValue?_eq_read h
    rcases is_of_quotes h with hkind | hkind <;>
    · rw [leafArgument, Tree.is_iff.1 hkind]
      dsimp only
      rw [hvalue]
      rfl

/-- The tree of a leaf is classified as one. -/
theorem classify_of_spellsLeaf {l : Leaf} (h : s.spellsLeaf l t.bare) :
    s.classify t = s.leafArgument t.bare := by
  obtain ⟨k, hmem, hk⟩ := exists_is_of_spellsLeaf h
  have hkinds : ∀ k ∈ leafKinds, k ∉ Tree.wrapperKinds ∧ k ≠ .object ∧ k ≠ .array := by decide
  obtain ⟨hwrapper, hobject, harray⟩ := hkinds k hmem
  rw [← classify_bare, classify_of_leaf hk hwrapper hobject harray]

/-- **The value of the tree of a leaf.** -/
theorem toJson?_of_spellsLeaf {l : Leaf} (h : s.spellsLeaf l t.bare) (hfits : l.fits) :
    (s.classify t).toJson? = some l.recorded := by
  rw [classify_of_spellsLeaf h, toJson?_leafArgument h hfits]

/-- The name of the tree of a key. -/
theorem propertyName?_of_spellsKey {k : Key} (h : s.spellsKey k t) :
    s.propertyName? t = some k.recorded := by
  cases k with
  | identifier ps =>
    simp only [spellsKey, Bool.and_eq_true, decide_eq_true_eq] at h
    simp [propertyName?, Tree.isAny, h.1, textOf, h.2, Key.recorded]
  | string q ps =>
    simp only [spellsKey, Bool.and_eq_true] at h
    have hlabel := Tree.is_iff.1 h.1
    simp [propertyName?, Tree.isAny, Tree.is, hlabel, stringValue?_eq_read h.2, Key.recorded]
  | number text =>
    simp only [spellsKey, Bool.and_eq_true, decide_eq_true_eq] at h
    simp [propertyName?, Tree.isAny, h.1, textOf, h.2, Key.recorded]

end Syntax.Source

/-! ### Arrays and objects -/

namespace Syntax.Source

variable {s : Source} {t : Tree} {ts : List Tree}

theorem isPart_of_isToken {m : String} (h : t.isToken m) :
    isPart t = false ∧ t.is .spreadElement = false := by
  have hlabel : t.label = .token m := of_decide_eq_true h
  simp [isPart, Tree.isNamed, Tree.is, hlabel]

/-- What stands between the marks of a node, with the marks. -/
theorem exists_marks_of_between {opening closing : String}
    (h : t.between opening closing = some ts) : ∃ first last : Tree,
      t.children.filter (fun c => !c.is .comment) = first :: (ts ++ [last]) ∧
        first.isToken opening ∧ last.isToken closing := by
  unfold Tree.between at h
  split at h
  · next first rest hrest =>
    split at h
    · next hmarks =>
      obtain ⟨hfirst, hlast⟩ := Bool.and_eq_true_iff.1 hmarks
      obtain ⟨last, hlast, hclosing⟩ := Option.any_eq_true _ _ |>.1 hlast
      obtain rfl := Option.some.inj h
      exact ⟨first, last, by rw [hrest, List.dropLast_append_getLast? last hlast], hfirst, hclosing⟩
    · simp at h
  · simp at h

/-- The parts of a node stand between its marks. -/
theorem named_of_between {opening closing : String} (h : t.between opening closing = some ts) :
    t.named = ts.filter isPart := by
  obtain ⟨first, last, hchildren, hfirst, hlast⟩ := exists_marks_of_between h
  -- Parts are no comments, so it does not matter that those are gone.
  have hnamed : t.named = (t.children.filter fun c => !c.is .comment).filter isPart := by
    rw [List.filter_filter]
    refine List.filter_congr fun c _ => ?_
    cases hc : c.is .comment <;> simp [isPart, hc]
  rw [hnamed, hchildren, List.filter_cons_of_neg (by simp [isPart_of_isToken hfirst]),
    List.filter_append, List.filter_singleton]
  simp [isPart_of_isToken hlast]

/-- Where nothing is spread between the marks of a node, nothing in it is. -/
theorem any_spread_of_between {opening closing : String} (h : t.between opening closing = some ts)
    (hts : ∀ c ∈ ts, c.is .spreadElement = false) :
    t.children.any (·.is .spreadElement) = false := by
  obtain ⟨first, last, hchildren, hfirst, hlast⟩ := exists_marks_of_between h
  rw [List.any_eq_false]
  intro c hc
  rw [Bool.not_eq_true]
  by_cases hcomment : c.is .comment
  · exact Tree.is_eq_false_of (Tree.is_iff.1 hcomment) nofun
  · have hmem : c ∈ t.children.filter fun c => !c.is .comment :=
      List.mem_filter.2 ⟨hc, by simpa using hcomment⟩
    rw [hchildren, List.mem_cons, List.mem_append, List.mem_singleton] at hmem
    rcases hmem with rfl | hmem | rfl
    · exact (isPart_of_isToken hfirst).2
    · exact hts c hmem
    · exact (isPart_of_isToken hlast).2

/-- Behind a part there is a comma and what follows, or nothing. -/
theorem exists_of_continues {done : Bool} {further : List Tree → Bool}
    (h : continues done further ts) (hdone : done → further []) :
    ∃ rest, further rest ∧ ts.filter isPart = rest.filter isPart ∧
      ∀ c ∈ ts, c ∈ rest ∨ c.is .spreadElement = false := by
  cases ts with
  | nil => exact ⟨[], hdone h, rfl, by simp⟩
  | cons comma rest =>
    obtain ⟨hcomma, hrest⟩ := Bool.and_eq_true_iff.1 h
    obtain ⟨hpart, hspread⟩ := isPart_of_isToken hcomma
    refine ⟨rest, hrest, List.filter_cons_of_neg (by simp [hpart]), fun c hc => ?_⟩
    rcases List.mem_cons.1 hc with rfl | hc
    · exact .inr hspread
    · exact .inl hc

/-- Behind an item there is a comma and the further items, or nothing. -/
theorem exists_of_continues_items {rest : List (Option Expression)}
    (h : continues rest.isEmpty (s.spellsItems rest) ts) :
    ∃ us, s.spellsItems rest us ∧ ts.filter isPart = us.filter isPart ∧
      ∀ c ∈ ts, c ∈ us ∨ c.is .spreadElement = false := by
  refine exists_of_continues h fun hdone => ?_
  rw [List.isEmpty_iff.1 hdone]
  rfl

/-- Behind a property there is a comma and the further ones, or nothing. -/
theorem exists_of_continues_entries {rest : List (Key × Expression)}
    (h : continues rest.isEmpty (s.spellsEntries rest) ts) :
    ∃ us, s.spellsEntries rest us ∧ ts.filter isPart = us.filter isPart := by
  obtain ⟨us, hus, hparts, -⟩ := exists_of_continues h fun hdone => by
    rw [List.isEmpty_iff.1 hdone]
    rfl
  exact ⟨us, hus, hparts⟩

/-- A literal is a part and no spread element. -/
theorem isPart_of_spells {e : Expression} (h : s.spells e t) :
    isPart t ∧ t.is .spreadElement = false := by
  cases e with
  | leaf l =>
    obtain ⟨k, hmem, hk⟩ := exists_is_of_spellsLeaf h
    have hkinds : ∀ k ∈ leafKinds, k ≠ .comment ∧ k ≠ .spreadElement := by decide
    exact Tree.isPart_of_is_bare hk (hkinds k hmem).1 (hkinds k hmem).2
  | array | object =>
    exact Tree.isPart_of_is_bare (Bool.and_eq_true_iff.1 h).1 nofun nofun

/-- No item is spread. -/
theorem ne_spread_of_spellsItems {items : List (Option Expression)}
    (h : s.spellsItems items ts) : ∀ c ∈ ts, c.is .spreadElement = false := by
  induction items generalizing ts with
  | nil =>
    rw [List.isEmpty_iff.1 h]
    simp
  | cons item rest ih =>
    cases ts with
    | nil => simp
    | cons t ts =>
      rw [List.forall_mem_cons]
      cases item with
      | none =>
        obtain ⟨hcomma, hrest⟩ := Bool.and_eq_true_iff.1 h
        exact ⟨(isPart_of_isToken hcomma).2, ih hrest⟩
      | some e =>
        obtain ⟨he, hrest⟩ := Bool.and_eq_true_iff.1 h
        obtain ⟨us, hus, -, hts⟩ := exists_of_continues_items hrest
        exact ⟨(isPart_of_spells he).2, fun c hc => (hts c hc).elim (ih hus c) id⟩

/-- An array is made up of its parts. -/
theorem classify_of_array (h : t.bare.is .array) (hbetween : t.bare.between "[" "]" = some ts)
    (hspread : ∀ c ∈ ts, c.is .spreadElement = false) :
    s.classify t = .array ((ts.filter isPart).map s.classify) := by
  have hobject : t.bare.is .object = false := Tree.is_eq_false_of (Tree.is_iff.1 h) nofun
  rw [← classify_bare, classify_eq, Tree.isWrapper_eq_false h (by decide), hobject, h,
    any_spread_of_between hbetween hspread, named_of_between hbetween]
  rfl

/-- The entry of a property whose key has a name. -/
theorem entryToJson?_of_pair {key value : Tree} {name : String} (h : t.is .pair)
    (hkey : t.field? .key = some key) (hvalue : t.field? .value = some value)
    (hname : s.propertyName? key = some name) :
    Argument.entryToJson? (s.entry t) = ((s.classify value).toJson?).map (name, ·) := by
  rw [entry_eq, if_pos h, hkey, hvalue]
  dsimp only
  rw [hname, Argument.entryToJson?]

mutual

/-- **The value of a tree that spells a literal.** -/
theorem toJson?_classify_of_spells : ∀ {e : Expression} {t : Tree}, s.spells e t →
    (∀ l ∈ e.leaves, l.fits) → (s.classify t).toJson? = some e.recorded
  | .leaf l, t, h, hfits => toJson?_of_spellsLeaf h (hfits l List.mem_cons_self)
  | .array items, t, h, hfits => by
    obtain ⟨harray, hitems⟩ := Bool.and_eq_true_iff.1 h
    obtain ⟨ts, hbetween, hitems⟩ := Option.any_eq_true _ _ |>.1 hitems
    rw [classify_of_array harray hbetween (ne_spread_of_spellsItems hitems), Argument.toJson?,
      itemsToJson?_of_spellsItems hitems hfits]
    rfl
  | .object entries, t, h, hfits => by
    obtain ⟨hobject, hentries⟩ := Bool.and_eq_true_iff.1 h
    obtain ⟨ts, hbetween, hentries⟩ := Option.any_eq_true _ _ |>.1 hentries
    rw [← classify_bare, classify_of_object s hobject, named_of_between hbetween, Argument.toJson?,
      entriesToJson?_of_spellsEntries hentries hfits]
    rfl

/-- The values of trees that spell items; holes have none. -/
theorem itemsToJson?_of_spellsItems : ∀ {items : List (Option Expression)} {ts : List Tree},
    s.spellsItems items ts → (∀ l ∈ Expression.leavesOfItems items, l.fits) →
      Argument.itemsToJson? ((ts.filter isPart).map s.classify) =
        some (Expression.recordedItems items)
  | [], ts, h, _ => by
    rw [List.isEmpty_iff.1 h]
    rfl
  | none :: rest, [], h, _ => by simp [spellsItems] at h
  | none :: rest, comma :: ts, h, hfits => by
    obtain ⟨hcomma, hrest⟩ := Bool.and_eq_true_iff.1 h
    rw [List.filter_cons_of_neg (by simp [isPart_of_isToken hcomma]), Expression.recordedItems]
    exact itemsToJson?_of_spellsItems hrest hfits
  | some e :: rest, [], h, _ => by simp [spellsItems] at h
  | some e :: rest, t :: ts, h, hfits => by
    obtain ⟨he, hrest⟩ := Bool.and_eq_true_iff.1 h
    obtain ⟨us, hus, hparts, -⟩ := exists_of_continues_items hrest
    obtain ⟨hfits, hfitsRest⟩ := List.forall_mem_append.1 hfits
    rw [List.filter_cons_of_pos (isPart_of_spells he).1, hparts, List.map_cons,
      Argument.itemsToJson?, toJson?_classify_of_spells he hfits,
      itemsToJson?_of_spellsItems hus hfitsRest]
    rfl

/-- The names and values of trees that spell properties. -/
theorem entriesToJson?_of_spellsEntries : ∀ {entries : List (Key × Expression)} {ts : List Tree},
    s.spellsEntries entries ts → (∀ l ∈ Expression.leavesOfEntries entries, l.fits) →
      Argument.entriesToJson? ((ts.filter isPart).map s.entry) =
        some (Expression.recordedEntries entries)
  | [], ts, h, _ => by
    rw [List.isEmpty_iff.1 h]
    rfl
  | (k, e) :: rest, [], h, _ => by simp [spellsEntries] at h
  | (k, e) :: rest, t :: ts, h, hfits => by
    simp only [spellsEntries, Bool.and_eq_true] at h
    obtain ⟨⟨⟨hpair, hkey⟩, hvalue⟩, hrest⟩ := h
    obtain ⟨key, hkey, hspelled⟩ := Option.any_eq_true _ _ |>.1 hkey
    obtain ⟨value, hvalue, he⟩ := Option.any_eq_true _ _ |>.1 hvalue
    obtain ⟨us, hus, hparts⟩ := exists_of_continues_entries hrest
    obtain ⟨hfits, hfitsRest⟩ := List.forall_mem_append.1 hfits
    have hpart : isPart t := by simp [isPart, Tree.isNamed, Tree.is, Tree.is_iff.1 hpair]
    rw [List.filter_cons_of_pos hpart, hparts, List.map_cons, Argument.entriesToJson?,
      entryToJson?_of_pair hpair hkey hvalue (propertyName?_of_spellsKey hspelled),
      toJson?_classify_of_spells he hfits, entriesToJson?_of_spellsEntries hus hfitsRest]
    rfl

end

end Syntax.Source

end FlowAnalysis
