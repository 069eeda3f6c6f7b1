/-! Binary numbers with 53 significant bits, and rounding to the nearest of them, ties to the even
mantissa. -/

namespace EntityClasses.Decimal

/-- The natural number nearest to a quotient, ties to the even one. -/
def roundQuotient (numerator denominator : Nat) : Nat :=
  let quotient := numerator / denominator
  let twice := 2 * (numerator % denominator)
  if twice < denominator then quotient
  else if denominator < twice then quotient + 1
  else quotient + quotient % 2

/-- A fraction divided by a power of two. -/
def shifted (numerator denominator : Nat) (exponent : Int) : Nat × Nat :=
  if exponent < 0 then (numerator * Nat.pow 2 (-exponent).toNat, denominator)
  else (numerator, denominator * Nat.pow 2 exponent.toNat)

/-- The number `mantissa * 2 ^ exponent`. -/
structure Double where
  mantissa : Nat
  exponent : Int
deriving DecidableEq, Repr

namespace Double

/-- The least exponent, which the numbers next to zero have. -/
def minExponent : Int :=
  -1074

def maxExponent : Int :=
  971

/-- The least exponent with which the whole part of the fraction is below `2 ^ 53`. -/
def exponentOf (numerator denominator : Nat) : Int :=
  let low : Int := (numerator.log2 : Int) - denominator.log2 - 53
  let (n, d) := shifted numerator denominator low
  max minExponent (if n / d < Nat.pow 2 53 then low else low + 1)

/-- The number nearest to a fraction. A fraction that is too large has none. -/
def ofFraction? (numerator denominator : Nat) : Option Double :=
  let exponent := exponentOf numerator denominator
  let (n, d) := shifted numerator denominator exponent
  let mantissa := roundQuotient n d
  let double : Double :=
    if mantissa < Nat.pow 2 53 then ⟨mantissa, exponent⟩ else ⟨mantissa / 2, exponent + 1⟩
  if double.exponent ≤ maxExponent then some double else none

/-- The number as a fraction. -/
def fraction (x : Double) : Nat × Nat :=
  shifted x.mantissa 1 (-x.exponent)

/-- The product, rounded. -/
def mul? (x y : Double) : Option Double :=
  let (n, d) := shifted (x.mantissa * y.mantissa) 1 (-(x.exponent + y.exponent))
  ofFraction? n d

end Double

end EntityClasses.Decimal
