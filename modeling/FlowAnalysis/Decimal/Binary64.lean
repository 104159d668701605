/-!
# Binary floating-point numbers

The finite numbers of the format with 53 significant bits, and rounding to them.  A number is kept
exactly, as a sign, a whole number and a power of two, so every operation here is arithmetic on
natural numbers followed by one rounding.

## Main definitions

* `Binary64` — a finite number.
* `Binary64.ofRatio?` — the number nearest to a quotient, unless that is too large.
* `Binary64.ofDecimal?` — the number nearest to a decimal.
* `Binary64.mul?`, `Binary64.div?` — rounded product and quotient.
-/

namespace FlowAnalysis.Decimal

/-- A finite binary floating-point number: `± significand * 2 ^ exponent`.  The significand has at
most 53 bits, and fewer only with the least exponent. -/
structure Binary64 where
  negative : Bool
  significand : Nat
  exponent : Int
  deriving DecidableEq, Repr, Inhabited

/-- A power with an integer exponent, as a quotient of natural numbers. -/
def powRatio (base : Nat) (e : Int) : Nat × Nat :=
  if 0 ≤ e then (base.pow e.toNat, 1) else (1, base.pow (-e).toNat)

/-- The quotient of natural numbers rounded to the nearest whole number, a half to the even
neighbour. -/
def roundDiv (num den : Nat) : Nat :=
  let q := num / den
  let r := num % den
  if 2 * r < den then q else if den < 2 * r then q + 1 else if q % 2 = 0 then q else q + 1

namespace Binary64

/-- The least exponent. -/
def minExponent : Int := -1074

/-- The greatest exponent. -/
def maxExponent : Int := 971

/-- The least significand of full width. -/
def fullWidth : Nat := Nat.pow 2 52

/-- Zero with a sign. -/
def zero (negative : Bool) : Binary64 := ⟨negative, 0, minExponent⟩

/-- Whether a number is zero, of either sign. -/
def isZero (x : Binary64) : Bool := x.significand = 0

/-- Equality of values; the sign of zero does not count. -/
def sameValue (x y : Binary64) : Bool := x = y || x.isZero && y.isZero

/-- The number of the opposite sign. -/
def neg (x : Binary64) : Binary64 := { x with negative := !x.negative }

/-- A quotient divided by a power of two, as a quotient. -/
def scaled (num den : Nat) (e : Int) : Nat × Nat :=
  if 0 ≤ e then (num, den * Nat.pow 2 e.toNat) else (num * Nat.pow 2 (-e).toNat, den)

/-- The exponent with which a quotient has a significand of full width, or the least exponent. -/
def exponentOf (num den : Nat) : Int :=
  let guess := max minExponent ((num.log2 : Int) - (den.log2 : Int) - 53)
  let (n, d) := scaled num den guess
  if n / d < 2 * fullWidth then guess else guess + 1

/-- A significand that may have just outgrown its width, with its exponent; too large a number
is nothing. -/
def settle? (negative : Bool) (significand : Nat) (exponent : Int) : Option Binary64 :=
  let (m, e) :=
    if significand < 2 * fullWidth then (significand, exponent) else (fullWidth, exponent + 1)
  if e ≤ maxExponent then some ⟨negative, m, e⟩ else none

/-- The number nearest to a quotient of natural numbers, a tie going to the even significand.
Nothing when it would be too large. -/
def ofRatio? (negative : Bool) (num den : Nat) : Option Binary64 :=
  if num = 0 then some (zero negative)
  else
    let e := exponentOf num den
    let (n, d) := scaled num den e
    settle? negative (roundDiv n d) e

/-- How many decimal digits a natural number has. -/
def digitCount (n : Nat) : Nat := (Nat.toDigits 10 n).length

/-- The number nearest to `digits * 10 ^ e`.  Exponents so far out that only zero or nothing can
result are settled first. -/
def ofDecimal? (negative : Bool) (digits : Nat) (e : Int) : Option Binary64 :=
  if digits = 0 then some (zero negative)
  else
    let magnitude := (digitCount digits : Int) + e
    if magnitude < -330 then some (zero negative)
    else if 320 < magnitude then none
    else
      let (p, q) := powRatio 10 e
      ofRatio? negative (digits * p) q

/-- The number nearest to a natural number. -/
def ofNat? (negative : Bool) (n : Nat) : Option Binary64 := ofRatio? negative n 1

/-- The magnitude of a number as a quotient. -/
def ratio (x : Binary64) : Nat × Nat :=
  let (p, q) := powRatio 2 x.exponent
  (x.significand * p, q)

/-- The rounded product. -/
def mul? (x y : Binary64) : Option Binary64 :=
  let (a, b) := x.ratio
  let (c, d) := y.ratio
  ofRatio? (x.negative != y.negative) (a * c) (b * d)

/-- The rounded quotient; the divisor must not be zero. -/
def div? (x y : Binary64) : Option Binary64 :=
  let (a, b) := x.ratio
  let (c, d) := y.ratio
  ofRatio? (x.negative != y.negative) (a * d) (b * c)

@[simp] theorem neg_neg (x : Binary64) : x.neg.neg = x := by
  simp [neg]

end Binary64

end FlowAnalysis.Decimal
