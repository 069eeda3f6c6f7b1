import EntityClasses.Check
import EntityClasses.CommandLine.Arguments
import EntityClasses.CommandLine.LogFilter
import EntityClasses.Datamodel.Load
import EntityClasses.Generation

/-! The program: it reads the command line, loads the configuration and the datamodel, and only then
checks the datamodel or generates its files. -/

namespace EntityClasses.CommandLine

/-- How an error is shown. -/
inductive ErrorStyle where
  | plain
  | coloured
  /-- In sentences, without any drawing. -/
  | narrated
deriving DecidableEq, Repr

namespace ErrorStyle

/-- Whether colours are asked for even where nobody may see them. -/
def forcesColour (environment : Environment) : Bool :=
  match environment "FORCE_COLOR" with
  | some "" | some "true" => true
  | some "false" => false
  | some level => LogLevel.number? level.toList ≠ some 0
  | none => (environment "CLICOLOR_FORCE").any (· ≠ "0")

def ofEnvironment (environment : Environment) : ErrorStyle :=
  if (environment "NO_GRAPHICS").any (· ≠ "0") then narrated
  else if forcesColour environment then coloured
  else plain

end ErrorStyle

/-- What the program leaves to its caller. -/
structure Outcome where
  exitCode : Nat
  standardText : String
  errorText : String
deriving DecidableEq, Repr

namespace Outcome

def ofReport (lines : List ReportLine) : Outcome :=
  ⟨0, Report.standardText lines, Report.errorText lines⟩

def ofSchemaError (style : ErrorStyle) (error : SchemaError) : Outcome :=
  let drawing := "\n\n  × " ++ error.message ++ "\n"
  match style with
  | .plain => ⟨1, "", error.code ++ drawing⟩
  | .coloured => ⟨1, "", "\x1b[31m" ++ error.code ++ "\x1b[0m" ++ drawing⟩
  | .narrated => ⟨1, "", error.message ++ "\ndiagnostic code: " ++ error.code ++ "\n"⟩

def ofGenerationError (error : GenerationError) : Outcome :=
  ⟨1, "", "Error: " ++ error.message ++ ": " ++ error.cause.message ++ "\n"⟩

def ofUsageError (error : UsageError) : Outcome :=
  ⟨2, "", "error: " ++ error.message ++ "\n"⟩

/-- The outcome with a note in front of what is reported. -/
def withNote (outcome : Outcome) (note : String) : Outcome :=
  { outcome with errorText := note ++ outcome.errorText }

end Outcome

def version : String :=
  "classgen 0.3.0\n"

def usage : String :=
  "Generate class-validator TypeScript classes from a Prisma datamodel\n\n" ++
  "Usage: classgen [OPTIONS] <COMMAND>\n\n" ++
  "Commands:\n" ++
  "  generate  Generate TypeScript classes from the datamodel\n" ++
  "  check     Validate the datamodel without generating code\n" ++
  "  help      Print this message\n"

section Run

variable {m : Type → Type} [Monad m] [Storage m]

/-- Loads a configuration, applies what the command line overrides, and resolves the path of the
datamodel. -/
def loadConfig (source : SourceArguments) (overrides : Config → Config) (environment : Environment) :
    ExceptT SchemaError m (Config × Path) := do
  let config ← ExceptT.mk (Config.loadSource source.config source.schema)
  let config := overrides config
  let schemaPath ← (config.datamodelPath environment : Except SchemaError Path)
  pure (config, schemaPath)

def runCheck (source : SourceArguments) (environment : Environment) :
    ExceptT SchemaError m Outcome := do
  let (_, schemaPath) ← loadConfig source id environment
  let datamodel ← ExceptT.mk (Datamodel.loadFile schemaPath)
  pure (.ofReport (check datamodel schemaPath).lines)

def runGenerate (source : SourceArguments) (overrides : Config → Config) (dryRun : Bool)
    (environment : Environment) : ExceptT SchemaError m Outcome := do
  let (config, schemaPath) ← loadConfig source overrides environment
  let options ← (config.options environment : Except SchemaError Options)
  let datamodel ← ExceptT.mk (Datamodel.loadFile schemaPath)
  match ← (generate datamodel options dryRun : m (Except GenerationError GenerationReport)) with
  | .ok report => pure (.ofReport report.lines)
  | .error error => pure (.ofGenerationError error)

def runCommand (command : Command) (environment : Environment) : ExceptT SchemaError m Outcome :=
  match command with
  | .check source => runCheck source environment
  | .generate source output enumDir modelDir dryRun =>
    runGenerate source
      (fun config =>
        ((config.withOverride .output output).withOverride .enumDir enumDir).withOverride
          .modelDir modelDir)
      dryRun environment

def Command.source : Command → SourceArguments
  | .check source | .generate source _ _ _ _ => source

/-- The place that the notes of a command come from. -/
def notePlace : String :=
  "classgen::commands"

/-- What is noted when there is no configuration file and none is named. -/
def defaultsNote (filter : LogFilter) (command : Command) : m String := do
  let present ← (Storage.present command.source.config : m Bool)
  let isShown := LogLevel.debug.rank ≤ (filter.levelAt notePlace).rank
  pure (if isShown && !present && command.source.config.Same Config.defaultPath then
    "DEBUG no classgen.toml found, using defaults\n" else "")

/-- Runs the program in the working directory. -/
def run (environment : Environment) (arguments : List String) : m Outcome := do
  match readArguments arguments with
  | .error error => pure (.ofUsageError error)
  | .ok .help => pure ⟨0, usage, ""⟩
  | .ok .version => pure ⟨0, version, ""⟩
  | .ok (.run verbosity command) =>
    let note ← defaultsNote (.ofEnvironment environment verbosity) command
    match ← (runCommand command environment).run with
    | .ok outcome => pure (outcome.withNote note)
    | .error error =>
      pure ((Outcome.ofSchemaError (.ofEnvironment environment) error).withNote note)

end Run

end EntityClasses.CommandLine
