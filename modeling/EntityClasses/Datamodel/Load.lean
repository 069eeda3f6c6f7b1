import EntityClasses.Datamodel.Document
import EntityClasses.Json.Reader
import EntityClasses.Schema.Error
import EntityClasses.Storage

/-! Loading a datamodel. Enums have distinct names, and so have models; enums are looked at first. -/

namespace EntityClasses.Datamodel

/-- Refuses names of which one repeats. -/
def checkNames (source : SourceText) (kind : String) (names : List String) :
    Except SchemaError Unit :=
  match firstRepeated names with
  | some name => .error (.duplicateName source kind name)
  | none => .ok ()

def validate (source : SourceText) (datamodel : Datamodel) : Except SchemaError Datamodel := do
  checkNames source "enum" (datamodel.enums.map (·.name))
  checkNames source "model" (datamodel.models.map (·.name))
  pure datamodel

/-- The datamodel that a text describes. What stands behind the JSON value is looked at only when the
value has the shape of a datamodel. -/
def load (source : SourceText) : Except SchemaError Datamodel :=
  match Json.readFirst source.chars with
  | .error error => .error (.badDatamodel source (.notJson error))
  | .ok (value, rest) =>
    match Document.datamodel? value with
    | none => .error (.badDatamodel source .wrongShape)
    | some datamodel =>
      match Json.expectEnd rest with
      | .error error => .error (.badDatamodel source (.notJson error))
      | .ok () => datamodel.validate source

/-- The datamodel in a file. -/
def loadFile {m : Type → Type} [Monad m] [Storage m] (path : Path) :
    m (Except SchemaError Datamodel) := do
  match ← (Storage.readText path : m (Except Fault String)) with
  | .error fault => pure (.error (.unreadable path fault))
  | .ok text => pure (load ⟨path.text, text⟩)

end EntityClasses.Datamodel
