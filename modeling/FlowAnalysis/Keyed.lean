/-!
# Lists of pairs as maps

Small maps whose order is part of what they say.  A map is a list of keys with values, and the two
ways of adding to it differ in where a new key goes.

## Main definitions

* `Keyed.get?` — the value of a key.
* `Keyed.put` — adds at the end; a key that is present keeps its place and gets the new value.
* `Keyed.insert` — adds at the place that the order of the keys demands.
-/

namespace FlowAnalysis.Keyed

variable {κ α : Type}

/-- The value of a key. -/
def get? [BEq κ] (m : List (κ × α)) (k : κ) : Option α :=
  (m.find? fun e => e.1 == k).map (·.2)

/-- The map with a value for a key: a key that is present keeps its place, a new one is added at
the end. -/
def put [BEq κ] (k : κ) (a : α) : List (κ × α) → List (κ × α)
  | [] => [(k, a)]
  | e :: rest => if e.1 == k then (k, a) :: rest else e :: put k a rest

/-- The map with a value for a key, at the first place in front of a greater key. -/
def insert (lt : κ → κ → Bool) (k : κ) (a : α) : List (κ × α) → List (κ × α)
  | [] => [(k, a)]
  | e :: rest =>
    if lt k e.1 then (k, a) :: e :: rest
    else if lt e.1 k then e :: insert lt k a rest
    else (k, a) :: rest

/-- The map of a list of pairs in the order of first appearance, the last value of a key
counting. -/
def ofList [BEq κ] (entries : List (κ × α)) : List (κ × α) :=
  entries.foldl (fun m e => put e.1 e.2 m) []

/-- The map of a list of pairs in the order of the keys, the last value of a key counting. -/
def sorted (lt : κ → κ → Bool) (entries : List (κ × α)) : List (κ × α) :=
  entries.foldl (fun m e => insert lt e.1 e.2 m) []

/-- The order of strings by their characters. -/
def stringLt (a b : String) : Bool := decide (a < b)

/-- The order of numbers. -/
def natLt (a b : Nat) : Bool := decide (a < b)

@[simp] theorem get?_nil [BEq κ] (k : κ) : get? ([] : List (κ × α)) k = none := rfl

@[simp] theorem get?_put [BEq κ] [LawfulBEq κ] (m : List (κ × α)) (k : κ) (a : α) :
    get? (put k a m) k = some a := by
  induction m with
  | nil => simp [put, get?]
  | cons e rest ih =>
    by_cases h : e.1 = k
    · simp [put, get?, h]
    · simpa [put, get?, List.find?_cons, h] using ih

theorem get?_put_ne [BEq κ] [LawfulBEq κ] (m : List (κ × α)) {k j : κ} (a : α) (h : j ≠ k) :
    get? (put k a m) j = get? m j := by
  induction m with
  | nil => simp [put, get?, Ne.symm h]
  | cons e rest ih =>
    by_cases hk : e.1 = k
    · simp [put, get?, hk, Ne.symm h]
    · by_cases hj : e.1 = j
      · simp [put, get?, hj, h]
      · simpa [put, get?, List.find?_cons, hk, hj] using ih

end FlowAnalysis.Keyed
