import FlowAnalysis.Decimal.Shortest
import FlowAnalysis.Keyed

/-!
# JSON values

Values as a text of JSON holds them: an object is the list of its entries in the order of the
text, and an entry may be repeated.  Whoever reads a value decides what a repeated entry means.

## Main definitions

* `Number`, `Json` — values.
* `Json.same` — equality of values; objects are compared entry by entry.
* `Json.depth` — how deeply a value is nested.
* `Json.usable` — whether every number and every text in a value has a meaning.
* `Json.canonical` — the value with the entries of each object ordered by key.
-/

namespace FlowAnalysis

open Decimal

/-- A number: whole, or a binary floating-point number. -/
inductive Number
  | int (i : Int)
  | float (x : Binary64)
  deriving DecidableEq, Repr, Inhabited

/-- Equality of numbers; a whole number differs from a floating-point number of its value. -/
def Number.same : Number → Number → Bool
  | .int i, .int j => i = j
  | .float x, .float y => x.sameValue y
  | _, _ => false

/-- A value of a text of JSON. -/
inductive Json
  | null
  | bool (b : Bool)
  | number (n : Number)
  | string (s : String)
  | array (items : List Json)
  | object (entries : List (String × Json))
  /-- A number out of range, or a text with half of a character. -/
  | meaningless
  deriving Repr, Inhabited

namespace Json

/-- A whole number. -/
def int (i : Int) : Json := .number (.int i)

/-- A natural number. -/
def nat (n : Nat) : Json := .int (Int.ofNat n)

/-- A list of texts. -/
def strings (xs : List String) : Json := .array (xs.map .string)

/-- An entry of an object, or nothing. -/
def entry? (name : String) (value : Option Json) : List (String × Json) :=
  match value with
  | some v => [(name, v)]
  | none => []

mutual

/-- How deeply a value is nested. -/
def depth : Json → Nat
  | array items => depthOfItems items + 1
  | object entries => depthOfEntries entries + 1
  | _ => 0

/-- How deeply the most deeply nested of some values is nested. -/
def depthOfItems : List Json → Nat
  | [] => 0
  | v :: rest => max (depth v) (depthOfItems rest)

/-- How deeply the most deeply nested value of some entries is nested. -/
def depthOfEntries : List (String × Json) → Nat
  | [] => 0
  | (_, v) :: rest => max (depth v) (depthOfEntries rest)

end

mutual

/-- Whether every number and every text in a value has a meaning. -/
def usable : Json → Bool
  | meaningless => false
  | array items => usableItems items
  | object entries => usableEntries entries
  | _ => true

/-- Whether all of some values are usable. -/
def usableItems : List Json → Bool
  | [] => true
  | v :: rest => usable v && usableItems rest

/-- Whether the values of some entries are usable. -/
def usableEntries : List (String × Json) → Bool
  | [] => true
  | (_, v) :: rest => usable v && usableEntries rest

end

mutual

/-- The value with the entries of every object ordered by key; of a repeated entry the last
counts. -/
def canonical : Json → Json
  | array items => .array (canonicalItems items)
  | object entries => .object (Keyed.sorted Keyed.stringLt (canonicalEntries entries))
  | v => v

/-- All of some values in canonical form. -/
def canonicalItems : List Json → List Json
  | [] => []
  | v :: rest => canonical v :: canonicalItems rest

/-- The values of some entries in canonical form. -/
def canonicalEntries : List (String × Json) → List (String × Json)
  | [] => []
  | (k, v) :: rest => (k, canonical v) :: canonicalEntries rest

end

mutual

/-- Equality of values; objects are compared entry by entry. -/
def same : Json → Json → Bool
  | null, null => true
  | bool a, bool b => a = b
  | number a, number b => a.same b
  | string a, string b => a = b
  | array a, array b => sameItems a b
  | object a, object b => sameEntries a b
  | _, _ => false

/-- Equality of lists of values. -/
def sameItems : List Json → List Json → Bool
  | [], [] => true
  | a :: as, b :: bs => same a b && sameItems as bs
  | _, _ => false

/-- Equality of lists of entries. -/
def sameEntries : List (String × Json) → List (String × Json) → Bool
  | [], [] => true
  | (k, a) :: as, (l, b) :: bs => k = l && same a b && sameEntries as bs
  | _, _ => false

end

/-- Whether a value may stand where `limit` levels of nesting are left. -/
def fits (limit : Nat) (v : Json) : Bool := v.usable && v.depth ≤ limit

/-- How deeply a text of JSON may be nested. -/
def maxDepth : Nat := 127

/-- The value of the entry with a name. -/
def get? (v : Json) (name : String) : Option Json :=
  match v with
  | object entries => Keyed.get? entries name
  | _ => none

end Json

end FlowAnalysis
