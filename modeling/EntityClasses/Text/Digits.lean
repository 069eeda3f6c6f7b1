/-! Digits, up to hexadecimal ones in either case, and the numbers that they make. -/

namespace EntityClasses.Text

/-- The value of a digit below `radix`. -/
def digitValue? (radix : Nat) (c : Char) : Option Nat :=
  let value? :=
    if '0' ≤ c && c ≤ '9' then some (c.toNat - '0'.toNat)
    else if 'a' ≤ c && c ≤ 'f' then some (c.toNat - 'a'.toNat + 10)
    else if 'A' ≤ c && c ≤ 'F' then some (c.toNat - 'A'.toNat + 10)
    else none
  value?.filter (· < radix)

/-- The number that digits make behind a number. -/
def numberFrom? (radix number : Nat) : List Char → Option Nat
  | [] => some number
  | c :: digits => (digitValue? radix c).bind fun value => numberFrom? radix (radix * number + value) digits

def number? (radix : Nat) (digits : List Char) : Option Nat :=
  numberFrom? radix 0 digits

end EntityClasses.Text
