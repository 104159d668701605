import FlowAnalysis.Decimal.Binary64

/-!
# The shortest decimal of a floating-point number

Of all decimals that are read back as a given number, the ones with the fewest digits are found,
and of those the nearest.

## Main definitions

* `Rounds` — the decimals that are read back as a number, as an interval of quotients.
* `shortest` — the digits and the decimal exponent.
* `Notation.text` — a number as it is written.
-/

namespace FlowAnalysis.Decimal

/-- The decimals that are read back as one number: an interval with the number itself inside.
All bounds are over one denominator. -/
structure Rounds where
  low : Nat
  middle : Nat
  high : Nat
  denominator : Nat
  /-- Whether the bounds themselves are read back. -/
  closed : Bool

/-- The decimals that are read back as the magnitude of a number. -/
def Rounds.of (x : Binary64) : Rounds :=
  let (p, q) := powRatio 2 x.exponent
  let m := x.significand
  let below := if m = Binary64.fullWidth && Binary64.minExponent < x.exponent then 1 else 2
  { low := (4 * m - below) * p, middle := 4 * m * p, high := (4 * m + 2) * p,
    denominator := 4 * q, closed := m % 2 = 0 }

/-- Whether a quotient lies in the interval. -/
def Rounds.contains (r : Rounds) (num den : Nat) : Bool :=
  let n := num * r.denominator
  let low := r.low * den
  let high := r.high * den
  if r.closed then low ≤ n && n ≤ high else low < n && n < high

/-- The exponent `e` with `10 ^ e ≤ num / den < 10 ^ (e + 1)`, searched for from a guess
downwards. -/
def decimalExponent (num den : Nat) : Nat → Int → Int
  | 0, e => e
  | n + 1, e =>
    let (p, q) := powRatio 10 e
    if p * den ≤ num * q then e else decimalExponent num den n (e - 1)

/-- A decimal: digits and a decimal exponent. -/
structure Digits where
  digits : Nat
  exponent : Int
  deriving DecidableEq, Repr

/-- The best decimal on the grid of the multiples of `10 ^ e`, if one of the two neighbours of the
number is read back as the number. -/
def Rounds.onGrid? (r : Rounds) (e : Int) : Option Digits :=
  let (p, q) := powRatio 10 e
  let below := r.middle * q / (r.denominator * p)
  let good := fun d => 0 < d && r.contains (d * p) q
  let doubled := (2 * below + 1) * p * r.denominator
  match good below, good (below + 1) with
  | true, false => some ⟨below, e⟩
  | false, true => some ⟨below + 1, e⟩
  | true, true =>
    let middle := 2 * r.middle * q
    if middle < doubled || (middle = doubled && below % 2 = 0) then some ⟨below, e⟩
    else some ⟨below + 1, e⟩
  | false, false => none

/-- The best decimal on the coarsest of the grids from `10 ^ e` down that has one. -/
def Rounds.search (r : Rounds) : Nat → Int → Digits
  | 0, e => ⟨0, e⟩
  | n + 1, e => (r.onGrid? e).getD (r.search n (e - 1))

/-- The shortest decimal that is read back as the magnitude of a number. -/
def shortest (x : Binary64) : Digits :=
  let r := Rounds.of x
  let top := (x.significand.log2 + x.exponent) * 30103 / 100000 + 2
  let e := decimalExponent r.middle r.denominator 6 top
  r.search 18 (e + 1)

/-- Which decimal exponents are written without an exponent mark. -/
structure Notation where
  least : Int
  greatest : Int

/-- From five places behind the point to sixteen before it, all digits are written out. -/
def Notation.plain : Notation := ⟨-5, 15⟩

/-- Digits written as text. -/
def digitsText (n : Nat) : List Char := Nat.toDigits 10 n

/-- An exponent with its mark and sign. -/
def exponentText (e : Int) : List Char :=
  'e' :: (if e < 0 then '-' else '+') :: digitsText e.natAbs

/-- The magnitude of a decimal as it is written. -/
def Notation.magnitude (style : Notation) (d : Digits) : List Char :=
  let ds := digitsText d.digits
  let point := (ds.length : Int) + d.exponent
  let scientific := point - 1
  if style.least ≤ scientific && scientific ≤ style.greatest then
    if 0 ≤ d.exponent then ds ++ List.replicate d.exponent.toNat '0' ++ ['.', '0']
    else if 0 < point then ds.take point.toNat ++ '.' :: ds.drop point.toNat
    else '0' :: '.' :: (List.replicate (-point).toNat '0' ++ ds)
  else
    match ds with
    | [] => []
    | [c] => c :: exponentText scientific
    | c :: rest => c :: '.' :: (rest ++ exponentText scientific)

/-- A number as it is written: the shortest decimal that is read back as the number. -/
def Notation.text (style : Notation) (x : Binary64) : List Char :=
  let magnitude := if x.isZero then ['0', '.', '0'] else style.magnitude (shortest x)
  if x.negative then '-' :: magnitude else magnitude

end FlowAnalysis.Decimal
