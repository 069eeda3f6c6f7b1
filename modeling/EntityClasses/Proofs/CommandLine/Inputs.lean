import EntityClasses.CommandLine.Program
import EntityClasses.Proofs.Datamodel.Loading
import EntityClasses.Proofs.DryRun

/-! The inputs of a command on a file tree. A command reads all its inputs before it changes anything: the
configuration, then the options, then the datamodel. Each of these steps leaves the tree alone, and the
first that fails ends the command. -/

namespace EntityClasses

/-- A program that changes no tree, whatever it answers. -/
def LeavesTree {α : Type} (program : StateM FileTree α) : Prop :=
  ∀ tree, (program.run tree).2 = tree

namespace LeavesTree

variable {α β : Type} {program : StateM FileTree α}

theorem run_eq (hprogram : LeavesTree program) (tree : FileTree) :
    program.run tree = ((program.run tree).1, tree) :=
  Prod.ext rfl (hprogram tree)

theorem pure (a : α) : LeavesTree (Pure.pure a) :=
  fun _ => rfl

theorem bind {next : α → StateM FileTree β} (hprogram : LeavesTree program)
    (hnext : ∀ a, LeavesTree (next a)) : LeavesTree (program >>= next) := by
  intro tree
  rw [StateT.run_bind, hprogram.run_eq tree]
  exact hnext _ tree

theorem present (p : Path) : LeavesTree (Storage.present p) :=
  fun _ => rfl

theorem readText (p : Path) : LeavesTree (Storage.readText p) :=
  fun _ => rfl

end LeavesTree

namespace CommandLine

variable {α β : Type}

/-- What a program that may end in a schema error answers, and the tree that it leaves. -/
def loadOn (program : ExceptT SchemaError (StateM FileTree) α) (tree : FileTree) :
    Except SchemaError α × FileTree :=
  program.run.run tree

theorem loadOn_bind (program : ExceptT SchemaError (StateM FileTree) α)
    (next : α → ExceptT SchemaError (StateM FileTree) β) (tree : FileTree) :
    loadOn (program >>= next) tree =
      match loadOn program tree with
      | (.ok a, left) => loadOn (next a) left
      | (.error error, left) => (.error error, left) := by
  simp only [loadOn, ExceptT.run_bind, StateT.run_bind]
  rcases program.run.run tree with ⟨_ | a, left⟩ <;> rfl

theorem loadOn_mk {program : StateM FileTree (Except SchemaError α)} (hprogram : LeavesTree program)
    (tree : FileTree) : loadOn (ExceptT.mk program) tree = ((program.run tree).1, tree) :=
  hprogram.run_eq tree

theorem loadOn_lift (result : Except SchemaError α) (tree : FileTree) :
    loadOn (liftM result) tree = (result, tree) := by
  cases result <;> rfl

section Reading

theorem leavesTree_config_loadFile (path : Path) :
    LeavesTree (Config.loadFile path : StateM FileTree _) := by
  refine (LeavesTree.readText path).bind fun text => ?_
  cases text <;> exact .pure _

theorem leavesTree_loadSource (path : Path) (schema : Option String) :
    LeavesTree (Config.loadSource path schema : StateM FileTree _) := by
  refine (LeavesTree.present path).bind fun present => ?_
  dsimp only
  split
  · exact (leavesTree_config_loadFile path).bind fun _ => .pure _
  · exact (LeavesTree.pure _).bind fun _ => .pure _

theorem leavesTree_datamodel_loadFile (path : Path) :
    LeavesTree (Datamodel.loadFile path : StateM FileTree _) := by
  refine (LeavesTree.readText path).bind fun text => ?_
  cases text <;> exact .pure _

theorem leavesTree_defaultsNote (filter : LogFilter) (command : Command) :
    LeavesTree (defaultsNote filter command : StateM FileTree _) :=
  (LeavesTree.present _).bind fun _ => .pure _

end Reading

section Commands

variable (source : SourceArguments) (overrides : Config → Config) (environment : Environment)
  (tree : FileTree)

/-- The configuration of a command, before the overrides, and the path of its datamodel. -/
structure LoadsConfig (config : Config) (schemaPath : Path) : Prop where
  loaded : ((Config.loadSource source.config source.schema : StateM FileTree _).run tree).1 = .ok config
  path : (overrides config).datamodelPath environment = .ok schemaPath

/-- All that a generation needs. -/
structure LoadsInputs (config : Config) (schemaPath : Path) (options : Options)
    (datamodel : Datamodel) : Prop
    extends LoadsConfig source overrides environment tree config schemaPath where
  resolved : (overrides config).options environment = .ok options
  read : ((Datamodel.loadFile schemaPath : StateM FileTree _).run tree).1 = .ok datamodel
  validated : datamodel.Distinct

theorem loadOn_loadConfig_cases :
    (∃ error, loadOn (loadConfig source overrides environment) tree = (.error error, tree)) ∨
    ∃ config schemaPath, LoadsConfig source overrides environment tree config schemaPath ∧
      loadOn (loadConfig source overrides environment) tree =
        (.ok (overrides config, schemaPath), tree) := by
  rw [loadConfig, loadOn_bind, loadOn_mk (leavesTree_loadSource _ _)]
  rcases hconfig : ((Config.loadSource source.config source.schema : StateM FileTree _).run tree).1
    with error | config
  · exact Or.inl ⟨error, rfl⟩
  · dsimp only
    rw [loadOn_bind, loadOn_lift]
    rcases hschema : (overrides config).datamodelPath environment with error | schemaPath
    · exact Or.inl ⟨error, rfl⟩
    · exact Or.inr ⟨config, schemaPath, ⟨hconfig, hschema⟩, rfl⟩

/-- A check ends with a report or with an error, and changes nothing. -/
theorem loadOn_runCheck : (loadOn (runCheck source environment) tree).2 = tree := by
  rw [runCheck, loadOn_bind]
  rcases loadOn_loadConfig_cases source id environment tree with
    ⟨error, hconfig⟩ | ⟨config, schemaPath, -, hconfig⟩
  · rw [hconfig]
  · rw [hconfig]
    dsimp only
    rw [loadOn_bind, loadOn_mk (leavesTree_datamodel_loadFile _)]
    rcases ((Datamodel.loadFile schemaPath : StateM FileTree _).run tree).1 with error | datamodel <;>
      rfl

/-- A generation ends with an error that changes nothing, or it has all that it needs and does what a
generation from that datamodel does. -/
theorem loadOn_runGenerate_cases (dryRun : Bool) :
    (∃ error, loadOn (runGenerate source overrides dryRun environment) tree = (.error error, tree)) ∨
    ∃ config schemaPath options datamodel outcome,
      LoadsInputs source overrides environment tree config schemaPath options datamodel ∧
      loadOn (runGenerate source overrides dryRun environment) tree =
        (.ok outcome, (generateOn datamodel options tree dryRun).2) := by
  rw [runGenerate, loadOn_bind]
  rcases loadOn_loadConfig_cases source overrides environment tree with
    ⟨error, hconfig⟩ | ⟨config, schemaPath, hloads, hconfig⟩
  · exact Or.inl ⟨error, by rw [hconfig]⟩
  · rw [hconfig]
    dsimp only
    rw [loadOn_bind, loadOn_lift]
    rcases hoptions : (overrides config).options environment with error | options
    · exact Or.inl ⟨error, rfl⟩
    · dsimp only
      rw [loadOn_bind, loadOn_mk (leavesTree_datamodel_loadFile _)]
      rcases hread : ((Datamodel.loadFile schemaPath : StateM FileTree _).run tree).1 with
        error | datamodel
      · exact Or.inl ⟨error, rfl⟩
      · have hinputs : LoadsInputs source overrides environment tree config schemaPath options
            datamodel := ⟨hloads, hoptions, hread, Datamodel.distinct_of_loadFile hread⟩
        refine Or.inr ⟨config, schemaPath, options, datamodel, ?_⟩
        dsimp only
        rw [loadOn_bind]
        have hgenerate : loadOn (liftM (generate datamodel options dryRun : StateM FileTree _)) tree =
            (.ok (generateOn datamodel options tree dryRun).1,
              (generateOn datamodel options tree dryRun).2) := rfl
        rw [hgenerate]
        rcases (generateOn datamodel options tree dryRun).1 with error | report
        · exact ⟨_, hinputs, rfl⟩
        · exact ⟨_, hinputs, rfl⟩

end Commands

/-- What a generation takes from the command line in place of its configuration. -/
def overridesOf (output enumDir modelDir : Option String) (config : Config) : Config :=
  ((config.withOverride .output output).withOverride .enumDir enumDir).withOverride .modelDir modelDir

theorem runCommand_generate (source : SourceArguments) (output enumDir modelDir : Option String)
    (dryRun : Bool) (environment : Environment) :
    (runCommand (.generate source output enumDir modelDir dryRun) environment :
      ExceptT SchemaError (StateM FileTree) Outcome) =
    runGenerate source (overridesOf output enumDir modelDir) dryRun environment := rfl

/-- The program on a file tree: what it leaves to its caller, and the tree that it leaves. -/
def runOn (environment : Environment) (arguments : List String) (tree : FileTree) :
    Outcome × FileTree :=
  (run environment arguments : StateM FileTree Outcome).run tree

section Program

variable (environment : Environment) (arguments : List String) (tree : FileTree)

/-- How the program ends is how its command ends, with a note in front. -/
theorem runOn_of_command {verbosity : Nat} {command : Command}
    (harguments : readArguments arguments = .ok (.run verbosity command)) :
    ∃ note, runOn environment arguments tree =
      ((match (loadOn (runCommand command environment) tree).1 with
        | .ok outcome => outcome
        | .error error => Outcome.ofSchemaError (.ofEnvironment environment) error).withNote note,
        (loadOn (runCommand command environment) tree).2) := by
  refine ⟨((defaultsNote (.ofEnvironment environment verbosity) command :
    StateM FileTree String).run tree).1, ?_⟩
  rw [runOn, run, harguments]
  dsimp only
  rw [StateT.run_bind, (leavesTree_defaultsNote _ _).run_eq tree]
  change (StateT.run (_ >>= _) tree) = _
  rw [StateT.run_bind, loadOn]
  rcases (runCommand command environment : ExceptT SchemaError (StateM FileTree) Outcome).run.run tree
    with ⟨error | outcome, final⟩ <;> rfl

theorem tree_of_command {verbosity : Nat} {command : Command}
    (harguments : readArguments arguments = .ok (.run verbosity command)) :
    (runOn environment arguments tree).2 = (loadOn (runCommand command environment) tree).2 := by
  obtain ⟨note, hrun⟩ := runOn_of_command environment arguments tree harguments
  rw [hrun]

theorem tree_of_no_command
    (harguments : ∀ verbosity command, readArguments arguments ≠ .ok (.run verbosity command)) :
    (runOn environment arguments tree).2 = tree := by
  rw [runOn, run]
  rcases hread : readArguments arguments with error | request
  · rfl
  · cases request with
    | help => rfl
    | version => rfl
    | run verbosity command => exact absurd hread (harguments verbosity command)

theorem tree_of_check {verbosity : Nat} {source : SourceArguments}
    (harguments : readArguments arguments = .ok (.run verbosity (.check source))) :
    (runOn environment arguments tree).2 = tree := by
  rw [tree_of_command environment arguments tree harguments]
  exact loadOn_runCheck source environment tree

theorem tree_of_generate_cases {verbosity : Nat} {source : SourceArguments}
    {output enumDir modelDir : Option String} {dryRun : Bool}
    (harguments : readArguments arguments =
      .ok (.run verbosity (.generate source output enumDir modelDir dryRun))) :
    (runOn environment arguments tree).2 = tree ∨
      ∃ config schemaPath options datamodel,
        LoadsInputs source (overridesOf output enumDir modelDir) environment tree config schemaPath
          options datamodel ∧
        (runOn environment arguments tree).2 = (generateOn datamodel options tree dryRun).2 := by
  rw [tree_of_command environment arguments tree harguments, runCommand_generate]
  rcases loadOn_runGenerate_cases source (overridesOf output enumDir modelDir) environment tree
    dryRun with ⟨error, hrun⟩ | ⟨config, schemaPath, options, datamodel, outcome, hinputs, hrun⟩
  · exact Or.inl (by rw [hrun])
  · exact Or.inr ⟨config, schemaPath, options, datamodel, hinputs, by rw [hrun]⟩

theorem tree_of_dryRun {verbosity : Nat} {source : SourceArguments}
    {output enumDir modelDir : Option String}
    (harguments : readArguments arguments =
      .ok (.run verbosity (.generate source output enumDir modelDir true))) :
    (runOn environment arguments tree).2 = tree := by
  rcases tree_of_generate_cases environment arguments tree harguments with
    hsame | ⟨config, schemaPath, options, datamodel, -, hrun⟩
  · exact hsame
  · rw [hrun, generateOn_dryRun]

/-- A command that ends in a schema error has changed nothing. -/
theorem loadOn_runCommand_of_error {command : Command} {error : SchemaError}
    (herror : (loadOn (runCommand command environment) tree).1 = .error error) :
    (loadOn (runCommand command environment) tree).2 = tree := by
  cases command with
  | check source => exact loadOn_runCheck source environment tree
  | generate source output enumDir modelDir dryRun =>
      rw [runCommand_generate] at herror ⊢
      rcases loadOn_runGenerate_cases source (overridesOf output enumDir modelDir) environment tree
        dryRun with ⟨error, hrun⟩ | ⟨config, schemaPath, options, datamodel, outcome, -, hrun⟩
      · rw [hrun]
      · rw [hrun] at herror
        cases herror

/-- **Inputs come first.** A check, a dry run and a command that ends in a schema error leave the tree as
it was. Where the tree does change, a generation in earnest had its configuration, its options and a
datamodel with distinct names, and the change is what generating from them makes of the tree. -/
theorem runOn_changes_only_with_inputs :
    (∀ verbosity source, readArguments arguments = .ok (.run verbosity (.check source)) →
      (runOn environment arguments tree).2 = tree) ∧
    (∀ verbosity source output enumDir modelDir,
      readArguments arguments = .ok (.run verbosity (.generate source output enumDir modelDir true)) →
      (runOn environment arguments tree).2 = tree) ∧
    (∀ verbosity command error, readArguments arguments = .ok (.run verbosity command) →
      (loadOn (runCommand command environment) tree).1 = .error error →
      (runOn environment arguments tree).2 = tree ∧
        ∃ note, (runOn environment arguments tree).1 =
          (Outcome.ofSchemaError (.ofEnvironment environment) error).withNote note) ∧
    ((runOn environment arguments tree).2 ≠ tree →
      ∃ verbosity source output enumDir modelDir config schemaPath options datamodel,
        readArguments arguments =
          .ok (.run verbosity (.generate source output enumDir modelDir false)) ∧
        LoadsInputs source (overridesOf output enumDir modelDir) environment tree config schemaPath
          options datamodel ∧
        (runOn environment arguments tree).2 = (generateOn datamodel options tree false).2) := by
  refine ⟨?_, ?_, ?_, ?_⟩
  · intro verbosity source harguments
    exact tree_of_check environment arguments tree harguments
  · intro verbosity source output enumDir modelDir harguments
    exact tree_of_dryRun environment arguments tree harguments
  · intro verbosity command error harguments herror
    obtain ⟨note, hrun⟩ := runOn_of_command environment arguments tree harguments
    rw [hrun, herror]
    exact ⟨loadOn_runCommand_of_error environment tree herror, note, rfl⟩
  · intro hchanged
    by_cases hcommand : ∃ verbosity command, readArguments arguments = .ok (.run verbosity command)
    · obtain ⟨verbosity, command, harguments⟩ := hcommand
      cases command with
      | check source =>
          exact absurd (tree_of_check environment arguments tree harguments) hchanged
      | generate source output enumDir modelDir dryRun =>
          cases dryRun with
          | true => exact absurd (tree_of_dryRun environment arguments tree harguments) hchanged
          | false =>
              rcases tree_of_generate_cases environment arguments tree harguments with
                hsame | ⟨config, schemaPath, options, datamodel, hinputs, hrun⟩
              · exact absurd hsame hchanged
              · exact ⟨verbosity, source, output, enumDir, modelDir, config, schemaPath, options,
                  datamodel, harguments, hinputs, hrun⟩
    · push Not at hcommand
      exact absurd (tree_of_no_command environment arguments tree hcommand) hchanged

end Program

end CommandLine

end EntityClasses
