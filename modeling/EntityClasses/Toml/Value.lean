import EntityClasses.Decimal.Double
import EntityClasses.Text.Position

/-! TOML values, with the places where they stand in their text. -/

namespace EntityClasses.Toml

open Text

/-- A floating-point number. -/
inductive FloatingPoint where
  | finite (isNegative : Bool) (magnitude : Decimal.Double)
  | infinite (isNegative : Bool)
  | notANumber
  /-- Digits that stand for a number which is too large. -/
  | outOfRange
deriving DecidableEq, Repr

structure Key where
  name : String
  span : Span
deriving DecidableEq, Repr

/-- How a table has come about, which decides what may still be added to it. -/
inductive Origin where
  /-- By its own header, or as the document. -/
  | header
  /-- Because a header leads through it. -/
  | implied
  /-- Because a dotted key leads through it. -/
  | dotted
  /-- In braces. -/
  | inline
  /-- In braces, because a dotted key leads through it. -/
  | inlineDotted
deriving DecidableEq, Repr

inductive Value where
  | string (span : Span) (text : String)
  /-- A whole number, or a numeral that looks like one and makes no number. -/
  | integer (span : Span) (value : Option Int)
  | float (span : Span) (value : FloatingPoint)
  | boolean (span : Span) (value : Bool)
  /-- A date, a time or both. What it says is not kept. -/
  | date (span : Span)
  /-- An array in brackets, or the tables of one repeated header. -/
  | array (span : Span) (isOfTables : Bool) (items : List Value)
  | table (span : Span) (origin : Origin) (entries : List (Key × Value))

namespace Value

def span : Value → Span
  | string span _ | integer span _ | float span _ | boolean span _ | date span => span
  | array span _ _ | table span _ _ => span

end Value

end EntityClasses.Toml
