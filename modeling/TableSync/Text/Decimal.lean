import TableSync.Text.Numeral

/-!
# Decimal fractions in binary precision

Percentages are computed with 53 significant bits: reading a decimal, multiplying and dividing each
give the nearest number of that precision, a half going to the even neighbour.  Numbers are exact
fractions here, and the size of the exponent is not bounded; what a smaller range of exponents would
change is beyond the integers that can be the result.

* `roundQuotient` rounds a quotient to an integer, and `Fraction.nearest` a fraction to 53 bits: it
  is scaled by a power of two until its integral part has 53 bits, rounded, and scaled back.
* `Fraction.times` and `Fraction.dividedBy` round once each, as does `readDecimal?`.
* `Fraction.round` is the integer at the end.
-/

set_option autoImplicit false

namespace TableSync

/-- A quotient rounded to the nearest integer, a half going to the even neighbour. -/
def roundQuotient (num den : Nat) : Nat :=
  let q := num / den
  let twice := 2 * (num % den)
  if twice < den then q
  else if den < twice then q + 1
  else if q % 2 = 0 then q else q + 1

/-- A fraction with a denominator other than zero. -/
structure Fraction where
  /-- The numerator. -/
  num : Nat
  /-- The denominator. -/
  den : Nat

namespace Fraction

/-- A fraction times a power of two. -/
def scale (x : Fraction) (e : Int) : Fraction :=
  match e with
  | .ofNat k => ⟨x.num * Nat.pow 2 k, x.den⟩
  | .negSucc k => ⟨x.num, x.den * Nat.pow 2 (k + 1)⟩

/-- The nearest fraction with 53 significant bits. -/
def nearest (x : Fraction) : Fraction :=
  if x.num = 0 then ⟨0, 1⟩
  else
    let guess : Int := 52 + x.den.log2 - x.num.log2
    let shifted := x.scale guess
    let shift := if shifted.num < Nat.pow 2 52 * shifted.den then guess + 1 else guess
    let y := x.scale shift
    (⟨roundQuotient y.num y.den, 1⟩ : Fraction).scale (-shift)

/-- The nearest fraction to a product with a number. -/
def times (x : Fraction) (n : Nat) : Fraction := nearest ⟨x.num * n, x.den⟩

/-- The nearest fraction to a quotient by a number. -/
def dividedBy (x : Fraction) (n : Nat) : Fraction := nearest ⟨x.num, x.den * n⟩

/-- The nearest integer, a half going to the even neighbour. -/
def round (x : Fraction) : Nat := roundQuotient x.num x.den

end Fraction

/-- The nearest fraction to a decimal: ASCII digits, and a point with more digits if there is a
fractional part. -/
def readDecimal? (whole fraction : Text) : Option Fraction := do
  let n ← digitsValue? (whole ++ fraction)
  return Fraction.nearest ⟨n, Nat.pow 10 fraction.length⟩

end TableSync
