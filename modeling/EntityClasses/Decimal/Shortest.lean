import EntityClasses.Decimal.Double

/-! The shortest decimal that reads back as a given binary number: the fewest digits, and of those the
nearest, ties upwards. It is written without an exponent, and with a point. -/

namespace EntityClasses.Decimal

/-- The number `digits * 10 ^ exponent`. -/
structure Numeral where
  digits : Nat
  exponent : Int
deriving DecidableEq, Repr

namespace Numeral

def fraction (x : Numeral) : Nat × Nat :=
  if x.exponent < 0 then (x.digits, Nat.pow 10 (-x.exponent).toNat)
  else (x.digits * Nat.pow 10 x.exponent.toNat, 1)

/-- The same number without a zero as its last digit, if it has one. -/
def withoutZero (x : Numeral) : Numeral :=
  if x.digits % 10 = 0 then ⟨x.digits / 10, x.exponent + 1⟩ else x

/-- The numeral without an exponent. At least one digit stands on either side of the point. -/
def text (x : Numeral) : String :=
  if x.exponent < 0 then
    let places := (-x.exponent).toNat
    let whole := x.digits / Nat.pow 10 places
    let part := toString (x.digits % Nat.pow 10 places)
    toString whole ++ "." ++ String.ofList (List.replicate (places - part.length) '0') ++ part
  else toString (x.digits * Nat.pow 10 x.exponent.toNat) ++ ".0"

end Numeral

/-- The number of digits in front of the point; below one it is the number of zeros behind the point,
negated. -/
def magnitude (numerator denominator : Nat) : Int :=
  if denominator ≤ numerator then (toString (numerator / denominator)).length
  else 1 - ((toString (denominator / numerator)).length : Int)

namespace Double

/-- Whether a fraction is rounded to `x`: whether it lies between the middles to the neighbours of `x`,
which belong to `x` if its mantissa is even. The lower neighbour of a power of two is half as far away
as the upper one. -/
def readsBack (x : Double) (numerator denominator : Nat) : Bool :=
  let isPower := x.mantissa = Nat.pow 2 52 && minExponent < x.exponent
  let (low, unit) := shifted (4 * x.mantissa - (if isPower then 1 else 2)) 4 (-x.exponent)
  let (high, _) := shifted (4 * x.mantissa + 2) 4 (-x.exponent)
  if x.mantissa % 2 = 0 then
    low * denominator ≤ numerator * unit && numerator * unit ≤ high * denominator
  else low * denominator < numerator * unit && numerator * unit < high * denominator

/-- The numeral with this exponent below `x` and the one above it, of those that read back as `x` the
nearer one. -/
def numeralAt? (x : Double) (exponent : Int) : Option Numeral :=
  let (n, d) := x.fraction
  let (p, q) := Numeral.fraction ⟨1, -exponent⟩
  let below : Numeral := ⟨n * p / (d * q), exponent⟩
  let above : Numeral := ⟨n * p / (d * q) + 1, exponent⟩
  let fits (numeral : Numeral) := x.readsBack numeral.fraction.1 numeral.fraction.2
  let nearer := if 2 * (n * p % (d * q)) < d * q then below else above
  if fits below && fits above then some nearer
  else if fits below then some below
  else if fits above then some above
  else none

/-- The shortest numeral. Seventeen digits are always enough, and only a number that is rounded up to a
power of ten ends in a zero. -/
def shortest (x : Double) : Numeral :=
  if x.mantissa = 0 then ⟨0, 0⟩
  else
    let (n, d) := x.fraction
    let exponents := (List.range 17).map fun count => magnitude n d - ((count + 1 : Nat) : Int)
    ((exponents.findSome? x.numeralAt?).getD ⟨0, 0⟩).withoutZero

end Double

end EntityClasses.Decimal
