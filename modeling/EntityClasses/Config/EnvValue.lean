import EntityClasses.Config.Environment
import EntityClasses.Schema.Error

/-! Option values that may name an environment variable, as in `env("NAME")`. -/

namespace EntityClasses

inductive EnvValue where
  | literal (text : String)
  | lookup (name : String)
deriving DecidableEq, Repr

namespace EnvValue

open Text

/-- What stands between two quotes. -/
def unquoted? (quote : Char) (s : List Char) : Option (List Char) :=
  (dropStart? [quote] s).bind (dropEnd? [quote])

/-- The variable that a text names. Blanks may stand around the whole and around the quoted name. -/
def variableName? (s : List Char) : Option (List Char) := do
  let call ← dropStart? ['e', 'n', 'v', '('] (trim s)
  let inner := trim (← dropEnd? [')'] call)
  (unquoted? '"' inner).or (unquoted? '\'' inner)

def parse (raw : String) : EnvValue :=
  match variableName? raw.toList with
  | some name => lookup (String.ofList name)
  | none => literal raw

def display : EnvValue → String
  | literal text => text
  | lookup name => "env(\"" ++ name ++ "\")"

/-- The text that a value stands for as the value of an option. -/
def resolve (environment : Environment) (optionName : String) :
    EnvValue → Except SchemaError String
  | literal text => .ok text
  | lookup name =>
    match environment name with
    | some text => .ok text
    | none => .error (.missingVariable name optionName)

end EnvValue

end EntityClasses
