import EntityClasses.Config.Document
import EntityClasses.FileTree
import EntityClasses.Json.SyntaxError
import EntityClasses.Schema.Source

/-! Why a configuration or a datamodel cannot be loaded, and the place in its text that an error points
at. -/

namespace EntityClasses

open Text

/-- Why a text is no datamodel. -/
inductive DatamodelFault where
  | notJson (error : Json.SyntaxError)
  | wrongShape
deriving DecidableEq, Repr

namespace DatamodelFault

/-- The position of a fault in its text. A wrong shape has none, which is written as line zero. -/
def position (source : SourceText) : DatamodelFault → Position
  | notJson error => error.position source.chars
  | wrongShape => ⟨0, 0⟩

def message (source : SourceText) : DatamodelFault → String
  | notJson error =>
    let position := error.position source.chars
    error.cause.message ++ " at line " ++ toString position.line ++ " column " ++
      toString position.column
  | wrongShape => "data did not match any variant of untagged enum RawDocument"

end DatamodelFault

inductive SchemaError where
  | unreadable (path : Path) (fault : Fault)
  | badDatamodel (source : SourceText) (fault : DatamodelFault)
  | badConfig (source : SourceText) (fault : ConfigFault)
  | duplicateName (source : SourceText) (kind name : String)
  | missingVariable (variableName optionName : String)
  | missingOutput
deriving DecidableEq, Repr

namespace SchemaError

def message : SchemaError → String
  | unreadable path _ => "failed to read '" ++ path.text ++ "'"
  | badDatamodel _ _ => "failed to parse datamodel"
  | badConfig _ _ => "failed to parse generator config"
  | duplicateName _ kind name => "duplicate " ++ kind ++ " '" ++ name ++ "'"
  | missingVariable variableName optionName =>
    "environment variable '" ++ variableName ++ "' referenced by '" ++ optionName ++ "' is not set"
  | missingOutput => "no output directory configured"

def code : SchemaError → String
  | unreadable _ _ => "classgen::io"
  | badDatamodel _ _ => "classgen::parse_error"
  | badConfig _ _ => "classgen::config_error"
  | duplicateName _ _ _ => "classgen::duplicate_name"
  | missingVariable _ _ => "classgen::missing_env"
  | missingOutput => "classgen::missing_output"

def help? : SchemaError → Option String
  | badDatamodel _ _ => some "the datamodel must be a DMMF document or its `datamodel` object"
  | duplicateName _ kind _ =>
    some ("every " ++ kind ++ " generates its own file, so names must be unique")
  | missingOutput => some "set `output` in the [generator] table or pass --output"
  | unreadable _ _ | badConfig _ _ | missingVariable _ _ => none

/-- What is written at the place that an error points at. -/
def labelText : SchemaError → String
  | duplicateName _ _ _ => "declared again here"
  | _ => "parse error here"

/-- The place that an error points at, if it can be told. -/
def span? : SchemaError → Option Span
  | badDatamodel source fault =>
    (offsetOf source.chars (fault.position source)).map fun offset => ⟨offset, 1⟩
  | badConfig _ fault => fault.span?
  | duplicateName source _ name => source.secondNamePlace? name
  | unreadable _ _ | missingVariable _ _ | missingOutput => none

end SchemaError

end EntityClasses
