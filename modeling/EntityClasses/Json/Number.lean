import EntityClasses.Decimal.Double
import EntityClasses.Json.SyntaxError

/-! Reading JSON numbers. A number that is too large for a double is refused. Its size is judged from as
many of its digits as fit into 64 bits and from its exponent; the digits left out of the whole part count
as a power of ten. -/

namespace EntityClasses.Json

def digitValue (c : Char) : Nat :=
  c.toNat - '0'.toNat

/-- The number that digits make behind the digits of `significand`, up to the first digit with which it
needs more than 64 bits, and the digits from there on. -/
def significandOf (significand : Nat) : List Char → Nat × List Char
  | [] => (significand, [])
  | c :: digits =>
    let longer := 10 * significand + digitValue c
    if longer < Nat.pow 2 64 then significandOf longer digits else (significand, c :: digits)

/-- The significand of a number and the power of ten that belongs to it, from the digits before and
behind the point. -/
def scientific (whole fraction : List Char) : Nat × Int :=
  let (significand, left) := significandOf 0 whole
  let (significand, unread) := significandOf significand fraction
  (significand, (left.length : Int) - (fraction.length - unread.length : Nat))

/-- Whether a double can hold the number. The significand and the power of ten are rounded before they
are multiplied. -/
def inRange (significand : Nat) (exponent : Int) : Bool :=
  if significand = 0 || exponent < 0 then true
  else if 308 < exponent then false
  else
    match Decimal.Double.ofFraction? significand 1,
        Decimal.Double.ofFraction? (Nat.pow 10 exponent.toNat) 1 with
    | some x, some y => (x.mul? y).isSome
    | _, _ => false

/-- The digits at the front of a text, and the text behind them. -/
def spanDigits (s : List Char) : List Char × List Char :=
  (s.takeWhile Char.isDigit, s.dropWhile Char.isDigit)

/-- The greatest exponent. -/
def maxExponent : Nat :=
  2147483647

/-- The value of the digits of an exponent, or the digits behind the one that makes it too large. -/
def exponentValue (exponent : Nat) : List Char → Except (List Char) Nat
  | [] => .ok exponent
  | c :: digits =>
    let longer := 10 * exponent + digitValue c
    if longer ≤ maxExponent then exponentValue longer digits else .error digits

/-- Reads the rest of a number behind the letter of its exponent. -/
def readExponent (significand : Nat) (exponent : Int) (s : List Char) :
    Except SyntaxError (List Char) :=
  let (isNegative, s) :=
    match s with
    | '-' :: rest => (true, rest)
    | '+' :: rest => (false, rest)
    | _ => (false, s)
  match s with
  | [] => .error (.here .endInValue [])
  | c :: _ =>
    if !c.isDigit then .error (.next .invalidNumber s)
    else
      let (digits, rest) := spanDigits s
      match exponentValue 0 digits with
      | .ok value =>
        if inRange significand (if isNegative then exponent - value else exponent + value) then
          .ok rest
        else .error (.here .numberOutOfRange rest)
      | .error unread =>
        if significand = 0 || isNegative then .ok rest
        else .error (.here .numberOutOfRange (unread ++ rest))

/-- Reads what follows the digits of a number: an exponent, or nothing. -/
def readScale (whole fraction s : List Char) : Except SyntaxError (List Char) :=
  let (significand, exponent) := scientific whole fraction
  match s with
  | 'e' :: rest | 'E' :: rest => readExponent significand exponent rest
  | _ =>
    if inRange significand exponent then .ok s else .error (.here .numberOutOfRange s)

/-- Reads what follows the whole part of a number. -/
def readFraction (whole s : List Char) : Except SyntaxError (List Char) :=
  match s with
  | '.' :: rest =>
    match spanDigits rest with
    | ([], []) => .error (.next .endInValue [])
    | ([], unread) => .error (.next .invalidNumber unread)
    | (fraction, unread) => readScale whole fraction unread
  | _ => readScale whole [] s

/-- Reads a number behind its sign. A whole part starts with zero only if it is zero. -/
def readUnsigned (s : List Char) : Except SyntaxError (List Char) :=
  match s with
  | [] => .error (.here .endInValue [])
  | '0' :: rest =>
    match rest with
    | [] => readFraction ['0'] []
    | c :: _ => if c.isDigit then .error (.next .invalidNumber rest) else readFraction ['0'] rest
  | c :: _ =>
    if c.isDigit then readFraction (spanDigits s).1 (spanDigits s).2
    else .error (.next .invalidNumber s)

/-- Reads a number, and leaves the text behind it. -/
def readNumber (s : List Char) : Except SyntaxError (List Char) :=
  match s with
  | '-' :: rest => readUnsigned rest
  | _ => readUnsigned s

end EntityClasses.Json
