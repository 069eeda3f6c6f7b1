import EntityClasses.Decimal.Shortest
import EntityClasses.Text.Quoted
import EntityClasses.Toml.Reader

/-! The settings that a TOML document gives in its table `generator`. Other tables are ignored, but their
numbers must be numbers that can be held. -/

namespace EntityClasses

open Text Toml

namespace Config

/-- What stands where something else was expected. -/
inductive Found where
  | integer (value : Int)
  | float (value : FloatingPoint)
  | boolean (value : Bool)
  | string (text : String)
  | sequence
  | map
deriving DecidableEq, Repr

inductive Expected where
  | string
  | generator
deriving DecidableEq, Repr

namespace Found

/-- The type that holds an integer, where it is not the usual one. -/
def wideSuffix (value : Int) : String :=
  if -Int.pow 2 63 ≤ value && value < Int.pow 2 64 then ""
  else if value < Int.pow 2 127 then " as i128"
  else " as u128"

def floatingPointText : FloatingPoint → String
  | .finite isNegative magnitude => (if isNegative then "-" else "") ++ magnitude.shortest.text
  | .infinite isNegative => if isNegative then "-inf" else "inf"
  | .notANumber | .outOfRange => "NaN"

def text : Found → String
  | integer value => "integer `" ++ toString value ++ "`" ++ wideSuffix value
  | float value => "floating point `" ++ floatingPointText value ++ "`"
  | boolean value => "boolean `" ++ (if value then "true" else "false") ++ "`"
  | string text => "string " ++ quoted text
  | sequence => "sequence"
  | map => "map"

end Found

def Expected.text : Expected → String
  | string => "a string"
  | generator => "struct RawGenerator"

end Config

/-- Why a document is no configuration. -/
inductive ConfigFault where
  | malformed
  | unknownField (name : String) (span : Span)
  | wrongType (found : Config.Found) (expected : Config.Expected) (span : Span)
  | tooShort (length : Nat) (span : Span)
deriving DecidableEq, Repr

namespace ConfigFault

/-- The message; a text that is no TOML document has none of its own. -/
def message? : ConfigFault → Option String
  | malformed => none
  | unknownField name _ =>
    some ("unknown field `" ++ name ++ "`, expected one of `output`, `enum_dir`, `model_dir`, `schema`")
  | wrongType found expected _ =>
    some ("invalid type: " ++ found.text ++ ", expected " ++ expected.text)
  | tooShort length _ =>
    some ("invalid length " ++ toString length ++ ", expected struct RawGenerator with 4 elements")

def span? : ConfigFault → Option Span
  | malformed => none
  | unknownField _ span | wrongType _ _ span | tooShort _ span => some span

end ConfigFault

namespace Config

/-- The integers that can be held. -/
def isHeld (value : Int) : Bool :=
  -Int.pow 2 127 ≤ value && value < Int.pow 2 128

mutual

/-- Whether all numbers in a value can be held. -/
def isReadable : Value → Bool
  | .integer _ value => value.any isHeld
  | .float _ value => value ≠ .outOfRange
  | .array _ _ items => areReadable items
  | .table _ _ entries => entriesAreReadable entries
  | .string _ _ | .boolean _ _ | .date _ => true

def areReadable : List Value → Bool
  | [] => true
  | value :: values => isReadable value && areReadable values

def entriesAreReadable : List (Key × Value) → Bool
  | [] => true
  | (_, value) :: entries => isReadable value && entriesAreReadable entries

end

/-- What a value is taken for where it is not expected. A number that cannot be held is taken for
nothing. -/
def found? : Value → Option Found
  | .string _ text => some (.string text)
  | .integer _ value => (value.filter isHeld).map .integer
  | .float _ value => if value = .outOfRange then none else some (.float value)
  | .boolean _ value => some (.boolean value)
  | .array _ _ _ => some .sequence
  | .date _ | .table _ _ _ => some .map

/-- The fault of a value that is not what was expected. -/
def wrongType (expected : Expected) (value : Value) : ConfigFault :=
  match found? value with
  | some found => .wrongType found expected value.span
  | none => .malformed

def text (value : Value) : Except ConfigFault String :=
  match value with
  | .string _ text => .ok text
  | _ => .error (wrongType .string value)

/-- The texts of the four settings, as far as they are given. -/
structure RawSettings where
  output : Option String := none
  enumDir : Option String := none
  modelDir : Option String := none
  schema : Option String := none
deriving DecidableEq, Repr

namespace RawSettings

/-- The settings with one more entry of the table. -/
def addEntry (settings : RawSettings) (entry : Key × Value) : Except ConfigFault RawSettings := do
  match entry.1.name with
  | "output" => pure { settings with output := some (← text entry.2) }
  | "enum_dir" => pure { settings with enumDir := some (← text entry.2) }
  | "model_dir" => pure { settings with modelDir := some (← text entry.2) }
  | "schema" => pure { settings with schema := some (← text entry.2) }
  | name => throw (.unknownField name entry.1.span)

end RawSettings

/-- Entries in the order in which they are looked at. -/
def byName (entries : Entries) : Entries :=
  entries.mergeSort fun a b => a.1.name ≤ b.1.name

/-- The key under which a date is looked at, as a table with one entry. -/
def dateKey : String :=
  "$__toml_private_datetime"

/-- The settings in the value of `generator`. An array gives all four of them, in a fixed order; what
follows them is not looked at. -/
def generatorSettings (value : Value) : Except ConfigFault RawSettings :=
  match value with
  | .table _ _ entries => (byName entries).foldlM RawSettings.addEntry {}
  | .array span _ items => do
    let texts ← (items.take 4).mapM text
    match texts with
    | [output, enumDir, modelDir, schema] =>
      pure ⟨some output, some enumDir, some modelDir, some schema⟩
    | _ => throw (.tooShort items.length span)
  | .date span => .error (.unknownField dateKey span)
  | _ => .error (wrongType .generator value)

/-- The settings with those in one more entry of the document. -/
def addTopEntry (settings : RawSettings) (entry : Key × Value) : Except ConfigFault RawSettings :=
  if entry.1.name = "generator" then generatorSettings entry.2
  else if isReadable entry.2 then .ok settings
  else .error .malformed

/-- The settings in a document. -/
def readSettings (document : List Char) : Except ConfigFault RawSettings :=
  match parse document with
  | some entries => (byName entries).foldlM addTopEntry {}
  | none => .error .malformed

end Config

end EntityClasses
