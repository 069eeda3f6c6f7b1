import EntityClasses.Text.Digits
import EntityClasses.Text.Lines
import EntityClasses.Toml.Value

/-! Numbers and dates in TOML. -/

namespace EntityClasses.Toml

open Text

/-- Digits of which single underscores may separate groups, without the underscores. -/
def grouped? (isDigit : Char → Bool) (s : List Char) : Option (List Char) :=
  let groups := partsAt '_' s
  if groups.all fun group => !group.isEmpty && group.all isDigit then some groups.flatten else none

/-- The digits of a whole number, which starts with zero only if it is zero. -/
def wholeDigits? (s : List Char) : Option (List Char) :=
  match s with
  | '0' :: _ :: _ => none
  | _ => grouped? Char.isDigit s

/-- Whether a number is negative, and the number behind its sign. -/
def splitSign : List Char → Bool × List Char
  | '-' :: s => (true, s)
  | '+' :: s => (false, s)
  | s => (false, s)

/-- Whether each underscore of a numeral has digits on both sides. -/
def isGrouped (isDigit : Char → Bool) (s : List Char) : Bool :=
  let groups := partsAt '_' s
  groups.tail.all (·.head?.any isDigit) && groups.dropLast.all (·.getLast?.any isDigit)

def isHexDigit (c : Char) : Bool :=
  (digitValue? 16 c).isSome

/-- A whole number behind the mark of its notation. The numeral may lack its digits. -/
def radixInteger? (radix : Nat) (s : List Char) : Option (Option Int) :=
  if s = [] then some none
  else (grouped? (fun c => (digitValue? radix c).isSome) s).map fun digits =>
    (number? radix digits).map Int.ofNat

/-- A whole number in decimal. A numeral with an underscore behind its first digits is one whatever
follows, a point, an exponent or a space apart, if its underscores have hexadecimal digits on both sides. -/
def decimalInteger? (s : List Char) : Option (Option Int) :=
  let (isNegative, digits) := splitSign s
  let value? := (number? 10 (digits.filter (· ≠ '_'))).map fun value =>
    if isNegative then -(value : Int) else value
  match digits.takeWhile Char.isDigit, digits.dropWhile Char.isDigit with
  | [], _ => none
  | '0' :: _ :: _, _ => none
  | _, [] => some value?
  | first, '_' :: rest =>
    if first = ['0'] || rest.any (· ∈ ['.', 'e', 'E', ' ']) || !isGrouped isHexDigit digits then none
    else some value?
  | _, _ => none

/-- A whole number, without a value if it makes none. It has a sign in decimal only. -/
def integer? : List Char → Option (Option Int)
  | '0' :: 'x' :: s => radixInteger? 16 s
  | '0' :: 'o' :: s => radixInteger? 8 s
  | '0' :: 'b' :: s => radixInteger? 2 s
  | s => decimalInteger? s

/-- The number `digits * 10 ^ exponent`. Beyond the powers of ten in which doubles lie it is not looked
at closely. -/
def FloatingPoint.ofDecimal (isNegative : Bool) (digits : Nat) (exponent : Int) : FloatingPoint :=
  let magnitude := ((toString digits).length : Int) + exponent
  if digits = 0 || magnitude < -330 then finite isNegative ⟨0, Decimal.Double.minExponent⟩
  else if 310 < magnitude then outOfRange
  else
    let number? :=
      if exponent < 0 then Decimal.Double.ofFraction? digits (Nat.pow 10 (-exponent).toNat)
      else Decimal.Double.ofFraction? (digits * Nat.pow 10 exponent.toNat) 1
    match number? with
    | some number => finite isNegative number
    | none => outOfRange

def exponent? (s : List Char) : Option Int := do
  let (isNegative, s) := splitSign s
  let value ← number? 10 (← grouped? Char.isDigit s)
  pure (if isNegative then -(value : Int) else value)

/-- A number with a point or an exponent, behind its sign. -/
def decimal? (isNegative : Bool) (s : List Char) : Option FloatingPoint := do
  let isLetter := fun c => c = 'e' || c = 'E'
  let mantissa := s.takeWhile (!isLetter ·)
  let exponent ←
    match s.dropWhile (!isLetter ·) with
    | [] => some none
    | _ :: rest => (exponent? rest).map some
  match partsAt '.' mantissa, exponent with
  | [whole], some exponent =>
    pure (FloatingPoint.ofDecimal isNegative (← number? 10 (← wholeDigits? whole)) exponent)
  | [whole, fraction], exponent =>
    let places ← grouped? Char.isDigit fraction
    let digits ← number? 10 ((← wholeDigits? whole) ++ places)
    pure (FloatingPoint.ofDecimal isNegative digits (exponent.getD 0 - places.length))
  | _, _ => none

def floatingPoint? (s : List Char) : Option FloatingPoint :=
  let (isNegative, s) := splitSign s
  if s = ['i', 'n', 'f'] then some (.infinite isNegative)
  else if s = ['n', 'a', 'n'] then some .notANumber
  else decimal? isNegative s

/-- The number of two digits, if it lies between two numbers, and what follows the digits. -/
def twoDigits? (least greatest : Nat) : List Char → Option (Nat × List Char)
  | a :: b :: rest => do
    let value ← number? 10 [a, b]
    if least ≤ value && value ≤ greatest then pure (value, rest) else none
  | _ => none

def skip? (c : Char) : List Char → Option (List Char)
  | d :: rest => if d = c then some rest else none
  | [] => none

def isLeapYear (year : Nat) : Bool :=
  year % 4 = 0 && (year % 100 != 0 || year % 400 = 0)

def daysIn (year month : Nat) : Nat :=
  if month = 2 then (if isLeapYear year then 29 else 28)
  else if month = 4 || month = 6 || month = 9 || month = 11 then 30
  else 31

/-- What follows a date. -/
def afterDate? (s : List Char) : Option (List Char) := do
  let (century, s) ← twoDigits? 0 99 s
  let (year, s) ← twoDigits? 0 99 s
  let (month, s) ← twoDigits? 1 12 (← skip? '-' s)
  let (_, s) ← twoDigits? 1 (daysIn (100 * century + year) month) (← skip? '-' s)
  pure s

/-- What follows the fraction of a second, if there is one. -/
def afterFraction? : List Char → Option (List Char)
  | '.' :: s =>
    match s with
    | c :: _ => if c.isDigit then some (s.dropWhile Char.isDigit) else none
    | [] => none
  | s => some s

/-- What follows a time. The seconds can be left out. -/
def afterTime? (s : List Char) : Option (List Char) := do
  let (_, s) ← twoDigits? 0 23 s
  let (_, s) ← twoDigits? 0 59 (← skip? ':' s)
  match s with
  | ':' :: s => do
    let (_, s) ← twoDigits? 0 60 s
    afterFraction? s
  | s => pure s

/-- Whether a text is the offset of a time zone. -/
def isOffset (s : List Char) : Bool :=
  match s with
  | ['Z'] | ['z'] => true
  | sign :: s =>
    (sign = '+' || sign = '-') &&
      (do
        let (_, s) ← twoDigits? 0 23 s
        let (_, s) ← twoDigits? 0 59 (← skip? ':' s)
        pure s) = some []
  | [] => false

/-- Whether a text is a time, with an offset if `offsetAllowed`. -/
def isTime (offsetAllowed : Bool) (s : List Char) : Bool :=
  match afterTime? s with
  | some [] => true
  | some rest => offsetAllowed && isOffset rest
  | none => false

/-- Whether a text is a date, a time or both. -/
def isDate (s : List Char) : Bool :=
  match afterDate? s with
  | some [] => true
  | some (c :: rest) => (c = 'T' || c = 't' || c = ' ') && isTime true rest
  | none => isTime false s

/-- The value of a text that is not quoted. -/
def scalar? (span : Span) (s : List Char) : Option Value :=
  if s = ['t', 'r', 'u', 'e'] then some (.boolean span true)
  else if s = ['f', 'a', 'l', 's', 'e'] then some (.boolean span false)
  else
    match integer? s with
    | some value => some (.integer span value)
    | none =>
      match floatingPoint? s with
      | some value => some (.float span value)
      | none => if isDate s then some (.date span) else none

end EntityClasses.Toml
