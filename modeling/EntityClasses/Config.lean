import EntityClasses.Config.EnvValue
import EntityClasses.Options

/-! Configurations. Each option is given by a file, overridden, or not given. Variables are looked up when
the options are resolved, so one that is overridden does not need its variable. -/

namespace EntityClasses

inductive ConfigKey where
  | output
  | enumDir
  | modelDir
  | schema
deriving DecidableEq, Repr

/-- The name of an option in a configuration file. -/
def ConfigKey.name : ConfigKey → String
  | output => "output"
  | enumDir => "enum_dir"
  | modelDir => "model_dir"
  | schema => "schema"

inductive Setting where
  | file (value : EnvValue)
  | override (text : String)
deriving DecidableEq, Repr

structure Config where
  output : Option Setting := none
  enumDir : Option Setting := none
  modelDir : Option Setting := none
  schema : Option Setting := none
  /-- The directory that relative paths in the configuration file start from. -/
  baseDir : Option Path := none
deriving DecidableEq, Repr

namespace Config

/-- The configuration that a text describes. -/
def load (source : SourceText) : Except SchemaError Config :=
  match readSettings source.chars with
  | .error fault => .error (.badConfig source fault)
  | .ok settings =>
    let setting := Option.map fun text => Setting.file (EnvValue.parse text)
    .ok {
      output := setting settings.output
      enumDir := setting settings.enumDir
      modelDir := setting settings.modelDir
      schema := setting settings.schema }

def get (config : Config) : ConfigKey → Option Setting
  | .output => config.output
  | .enumDir => config.enumDir
  | .modelDir => config.modelDir
  | .schema => config.schema

/-- Overrides an option. Without a text the option stays. -/
def withOverride (config : Config) (key : ConfigKey) (text : Option String) : Config :=
  match text with
  | none => config
  | some text =>
    match key with
    | .output => { config with output := some (.override text) }
    | .enumDir => { config with enumDir := some (.override text) }
    | .modelDir => { config with modelDir := some (.override text) }
    | .schema => { config with schema := some (.override text) }

/-- The text of an option. -/
def resolveName (config : Config) (environment : Environment) (key : ConfigKey) :
    Except SchemaError (Option String) :=
  match config.get key with
  | none => .ok none
  | some (.override text) => .ok (some text)
  | some (.file value) => (value.resolve environment key.name).map some

/-- The path in an option. A relative path from a file starts in the directory of that file. -/
def resolvePath (config : Config) (environment : Environment) (key : ConfigKey) :
    Except SchemaError (Option Path) :=
  match config.get key with
  | none => .ok none
  | some (.override text) => .ok (some ⟨text⟩)
  | some (.file value) =>
    (value.resolve environment key.name).map fun text =>
      match config.baseDir with
      | some base => some (base.join ⟨text⟩)
      | none => some ⟨text⟩

/-- The path of the datamodel, if one is given. -/
def schemaPath (config : Config) (environment : Environment) : Except SchemaError (Option Path) :=
  config.resolvePath environment .schema

/-- The options of a generation. There must be an output directory. -/
def options (config : Config) (environment : Environment) : Except SchemaError Options := do
  match ← config.resolvePath environment .output with
  | none => throw .missingOutput
  | some output =>
    let enumDir ← config.resolveName environment .enumDir
    let modelDir ← config.resolveName environment .modelDir
    pure (((Options.new output).withEnumDir (enumDir.getD "")).withModelDir (modelDir.getD ""))

end Config

end EntityClasses
