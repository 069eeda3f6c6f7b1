import EntityClasses.Config
import EntityClasses.Storage

/-! Configuration files. -/

namespace EntityClasses.Config

/-- Where a configuration is looked for if no file is named. -/
def defaultPath : Path :=
  ⟨"classgen.toml"⟩

/-- Where the datamodel is looked for if no file is named. -/
def defaultSchema : Path :=
  ⟨"dmmf.json"⟩

section Files

variable {m : Type → Type} [Monad m] [Storage m]

/-- The configuration in a file. Its relative paths start in the directory of the file. -/
def loadFile (path : Path) : m (Except SchemaError Config) := do
  match ← (Storage.readText path : m (Except Fault String)) with
  | .error fault => pure (.error (.unreadable path fault))
  | .ok text =>
    pure ((load ⟨path.text, text⟩).map fun config => { config with baseDir := path.parent? })

/-- The configuration of a command. The file at the default path may be missing; any other must be
there. -/
def loadSource (path : Path) (schema : Option String) : m (Except SchemaError Config) := do
  let present ← (Storage.present path : m Bool)
  let loaded ←
    if present || ¬ path.Same defaultPath then loadFile path else pure (.ok {})
  pure (loaded.map (·.withOverride .schema schema))

end Files

/-- The path of the datamodel. -/
def datamodelPath (config : Config) (environment : Environment) : Except SchemaError Path :=
  (config.schemaPath environment).map (·.getD defaultSchema)

end EntityClasses.Config
