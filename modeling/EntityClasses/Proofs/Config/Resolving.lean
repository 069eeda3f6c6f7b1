import Mathlib.Data.List.Basic
import EntityClasses.Proofs.Config.LookUp

/-! What the options of a generation are resolved to. Each option is absent, a text, or a variable; the
first variable that is not set ends it, and only a missing output directory comes before that. A directory
in the output directory has a name in the end, whatever the option holds: an empty text counts as none. -/

namespace EntityClasses

/-- The text that a setting gives. An override and a literal give themselves, a variable its value. -/
inductive Setting.Gives (environment : Environment) : Setting → String → Prop where
  | override (text : String) : Gives environment (.override text) text
  | literal (text : String) : Gives environment (.file (.literal text)) text
  | lookup {name text : String} : environment name = some text →
      Gives environment (.file (.lookup name)) text

namespace Config

section Specification

variable (config : Config) (environment : Environment)

/-- An option comes from a variable that is not set. -/
def Lacks (key : ConfigKey) (name : String) : Prop :=
  config.get key = some (.file (.lookup name)) ∧ environment name = none

/-- The options of a generation, in the order in which they are looked at. -/
def resolvedKeys : List ConfigKey :=
  [.output, .enumDir, .modelDir]

/-- The first of these options that lacks its variable. -/
def FirstLacking (key : ConfigKey) (name : String) : Prop :=
  ∃ earlier later, resolvedKeys = earlier ++ key :: later ∧
    (∀ other ∈ earlier, ∀ unset, ¬ config.Lacks environment other unset) ∧
    config.Lacks environment key name

/-- The output directory. An override is taken as it is. A path from a file starts in the base directory
exactly if it is relative and there is a base directory. -/
inductive GivesOutput : Path → Prop where
  | override {text : String} : config.output = some (.override text) → GivesOutput ⟨text⟩
  | rebased {value : EnvValue} {text : String} {base : Path} : config.output = some (.file value) →
      Setting.Gives environment (.file value) text → config.baseDir = some base →
      (⟨text⟩ : Path).isAbsolute = false → GivesOutput (base.join ⟨text⟩)
  | kept {value : EnvValue} {text : String} : config.output = some (.file value) →
      Setting.Gives environment (.file value) text →
      (∀ base, config.baseDir = some base → (⟨text⟩ : Path).isAbsolute = true) → GivesOutput ⟨text⟩

/-- The name of a directory in the output directory, with the name that it has without one. -/
inductive GivesName (key : ConfigKey) (default : String) : String → Prop where
  | given {setting : Setting} {text : String} : config.get key = some setting →
      setting.Gives environment text → text ≠ "" → GivesName key default text
  | empty {setting : Setting} : config.get key = some setting → setting.Gives environment "" →
      GivesName key default default
  | absent : config.get key = none → GivesName key default default

/-- What the options of a generation come to. -/
inductive Resolves : Except SchemaError Options → Prop where
  | noOutput : config.output = none → Resolves (.error .missingOutput)
  | lacking {key : ConfigKey} {name : String} : config.output ≠ none →
      config.FirstLacking environment key name → Resolves (.error (.missingVariable name key.name))
  | resolved {options : Options} : config.GivesOutput environment options.outputDir →
      config.GivesName environment .enumDir "enums" options.enumDir →
      config.GivesName environment .modelDir "models" options.modelDir → Resolves (.ok options)

end Specification

theorem GivesName.ne_empty {config : Config} {environment : Environment} {key : ConfigKey}
    {default name : String} (hgives : config.GivesName environment key default name)
    (hdefault : default ≠ "") : name ≠ "" := by
  cases hgives with
  | given _ _ hne => exact hne
  | empty | absent => exact hdefault

section Resolving

variable {config : Config} {environment : Environment} {key : ConfigKey}

/-- An option is absent, gives a text, or lacks its variable. -/
theorem gives_or_lacks (config : Config) (environment : Environment) (key : ConfigKey) :
    config.get key = none ∨
    (∃ setting text, config.get key = some setting ∧ setting.Gives environment text) ∨
    ∃ name, config.Lacks environment key name := by
  cases hget : config.get key with
  | none => exact Or.inl rfl
  | some setting =>
      cases setting with
      | override text => exact Or.inr (Or.inl ⟨_, text, rfl, .override text⟩)
      | file value =>
          cases value with
          | literal text => exact Or.inr (Or.inl ⟨_, text, rfl, .literal text⟩)
          | lookup name =>
              cases hname : environment name with
              | none => exact Or.inr (Or.inr ⟨name, hget, hname⟩)
              | some text => exact Or.inr (Or.inl ⟨_, text, rfl, .lookup hname⟩)

theorem resolve_of_gives {value : EnvValue} {text : String} (optionName : String)
    (hgives : Setting.Gives environment (.file value) text) :
    value.resolve environment optionName = .ok text := by
  cases hgives with
  | literal => rfl
  | lookup hname => rw [EnvValue.resolve, hname]

theorem lookUp_of_gives {setting : Setting} {text : String} (hget : config.get key = some setting)
    (hgives : setting.Gives environment text) {α : Type} (make : String → α) :
    config.lookUp environment key make make = .ok (some (make text)) := by
  cases setting with
  | override =>
      cases hgives
      exact lookUp_of_override _ _ hget
  | file value => exact lookUp_of_file _ _ hget (resolve_of_gives _ hgives)

/-- A name is what is found, or the default where nothing or an empty text is found. -/
theorem resolveName_of_givesName {default name : String}
    (hgives : config.GivesName environment key default name) :
    ∃ text?, config.resolveName environment key = .ok text? ∧
      (if text?.getD "" = "" then default else text?.getD "") = name := by
  cases hgives with
  | given hget hgives hne => exact ⟨_, lookUp_of_gives hget hgives id, if_neg hne⟩
  | empty hget hgives => exact ⟨_, lookUp_of_gives hget hgives id, rfl⟩
  | absent hnone => exact ⟨_, lookUp_of_none id id hnone, rfl⟩

theorem exists_givesName (default : String) (hset : ∀ unset, ¬ config.Lacks environment key unset) :
    ∃ name, config.GivesName environment key default name := by
  rcases gives_or_lacks config environment key with
    hnone | ⟨setting, text, hget, hgives⟩ | ⟨name, hlacks⟩
  · exact ⟨default, .absent hnone⟩
  · by_cases hempty : text = ""
    · exact ⟨default, .empty hget (hempty ▸ hgives)⟩
    · exact ⟨text, .given hget hgives hempty⟩
  · exact absurd hlacks (hset name)

theorem exists_resolveName (hset : ∀ unset, ¬ config.Lacks environment key unset) :
    ∃ text?, config.resolveName environment key = .ok text? := by
  obtain ⟨name, hgives⟩ := exists_givesName "" hset
  obtain ⟨text?, hok, -⟩ := resolveName_of_givesName hgives
  exact ⟨text?, hok⟩

theorem resolvePath_of_givesOutput {path : Path} (hgives : config.GivesOutput environment path) :
    config.resolvePath environment .output = .ok (some path) := by
  rw [resolvePath_eq_lookUp]
  cases hgives with
  | override houtput => exact lookUp_of_override _ _ houtput
  | rebased houtput hgives hbase =>
      have hget : config.get .output = _ := houtput
      rw [lookUp_of_file _ _ hget (resolve_of_gives _ hgives), fromFile, hbase]
  | @kept _ text houtput hgives habsolute =>
      have hget : config.get .output = _ := houtput
      rw [lookUp_of_file _ _ hget (resolve_of_gives _ hgives), fromFile]
      cases hbase : config.baseDir with
      | none => rfl
      | some base =>
          dsimp only
          rw [Path.join, if_pos (habsolute base hbase)]

theorem exists_givesOutput (houtput : config.output ≠ none)
    (hset : ∀ unset, ¬ config.Lacks environment .output unset) :
    ∃ path, config.GivesOutput environment path := by
  rcases gives_or_lacks config environment .output with
    hnone | ⟨setting, text, hget, hgives⟩ | ⟨name, hlacks⟩
  · exact absurd hnone houtput
  · cases setting with
    | override text => exact ⟨_, .override hget⟩
    | file value =>
        by_cases habsolute : ∀ base, config.baseDir = some base → (⟨text⟩ : Path).isAbsolute = true
        · exact ⟨_, .kept hget hgives habsolute⟩
        · push Not at habsolute
          obtain ⟨base, hbase, hrelative⟩ := habsolute
          exact ⟨_, .rebased hget hgives hbase (by simpa using hrelative)⟩
  · exact absurd hlacks (hset name)

end Resolving

section Options

variable {config : Config} {environment : Environment}

theorem options_of_givesOutput {path : Path} (hgives : config.GivesOutput environment path) :
    config.options environment = (do
      let enumDir ← config.resolveName environment .enumDir
      let modelDir ← config.resolveName environment .modelDir
      pure (((Options.new path).withEnumDir (enumDir.getD "")).withModelDir (modelDir.getD ""))) := by
  rw [options, resolvePath_of_givesOutput hgives]
  rfl

/-- The options of a generation, once its names are found. -/
theorem options_new (path : Path) (enumDir modelDir : String) :
    ((Options.new path).withEnumDir enumDir).withModelDir modelDir =
      ⟨path, if enumDir = "" then "enums" else enumDir, if modelDir = "" then "models" else modelDir⟩ := by
  unfold Options.withEnumDir Options.withModelDir
  split_ifs <;> rfl

theorem options_of_firstLacking {key : ConfigKey} {name : String} (houtput : config.output ≠ none)
    (hfirst : config.FirstLacking environment key name) :
    config.options environment = .error (.missingVariable name key.name) := by
  obtain ⟨earlier, later, hsplit, hset, hlacks⟩ := hfirst
  match earlier, hsplit with
  | [], hsplit =>
      cases hsplit
      rw [options, resolvePath_eq_lookUp, lookUp_of_unset _ _ hlacks.1 hlacks.2]
      rfl
  | [_], hsplit =>
      cases hsplit
      obtain ⟨path, hgives⟩ := exists_givesOutput houtput (hset .output (by simp))
      rw [options_of_givesOutput hgives, resolveName_eq_lookUp, lookUp_of_unset _ _ hlacks.1 hlacks.2]
      rfl
  | [_, _], hsplit =>
      cases hsplit
      obtain ⟨path, hgives⟩ := exists_givesOutput houtput (hset .output (by simp))
      obtain ⟨enumDir?, henumDir⟩ := exists_resolveName (hset .enumDir (by simp))
      rw [options_of_givesOutput hgives, henumDir, resolveName_eq_lookUp,
        lookUp_of_unset _ _ hlacks.1 hlacks.2]
      rfl
  | [_, _, _], hsplit => cases hsplit
  | _ :: _ :: _ :: _ :: _, hsplit => cases hsplit

theorem options_of_resolves {result : Except SchemaError Options}
    (hresolves : config.Resolves environment result) : config.options environment = result := by
  cases hresolves with
  | noOutput houtput =>
      have hget : config.get .output = none := houtput
      rw [options, resolvePath_eq_lookUp, lookUp_of_none _ _ hget]
      rfl
  | lacking houtput hfirst => exact options_of_firstLacking houtput hfirst
  | resolved houtput henumDir hmodelDir =>
      obtain ⟨enumDir?, henumDir, hname⟩ := resolveName_of_givesName henumDir
      obtain ⟨modelDir?, hmodelDir, hother⟩ := resolveName_of_givesName hmodelDir
      rw [options_of_givesOutput houtput, henumDir, hmodelDir]
      change Except.ok (((Options.new _).withEnumDir _).withModelDir _) = _
      rw [options_new, hname, hother]

theorem exists_resolves (config : Config) (environment : Environment) :
    ∃ result, config.Resolves environment result := by
  by_cases houtput : config.output = none
  · exact ⟨_, .noOutput houtput⟩
  by_cases hlacksOutput : ∃ name, config.Lacks environment .output name
  · obtain ⟨name, hlacks⟩ := hlacksOutput
    exact ⟨_, .lacking houtput ⟨[], _, rfl, by simp, hlacks⟩⟩
  have hset := not_exists.mp hlacksOutput
  by_cases hlacksEnumDir : ∃ name, config.Lacks environment .enumDir name
  · obtain ⟨name, hlacks⟩ := hlacksEnumDir
    exact ⟨_, .lacking houtput ⟨[.output], _, rfl, by simpa using hset, hlacks⟩⟩
  have hsetEnumDir := not_exists.mp hlacksEnumDir
  by_cases hlacksModelDir : ∃ name, config.Lacks environment .modelDir name
  · obtain ⟨name, hlacks⟩ := hlacksModelDir
    have hearlier := And.intro hset hsetEnumDir
    exact ⟨_, .lacking houtput ⟨[.output, .enumDir], _, rfl, by simpa using hearlier, hlacks⟩⟩
  obtain ⟨path, hpath⟩ := exists_givesOutput houtput hset
  obtain ⟨enumDir, henumDir⟩ := exists_givesName "enums" hsetEnumDir
  obtain ⟨modelDir, hmodelDir⟩ := exists_givesName "models" (not_exists.mp hlacksModelDir)
  exact ⟨.ok ⟨path, enumDir, modelDir⟩, .resolved hpath henumDir hmodelDir⟩

/-- **What the options of a generation come to**: nothing without an output directory, whatever else is
given; else nothing for the first variable that is not set; else the output directory and two names, of which
neither is empty. -/
theorem options_eq_iff_resolves (config : Config) (environment : Environment) :
    (∀ result, config.options environment = result ↔ config.Resolves environment result) ∧
    ∀ options, config.options environment = .ok options → options.enumDir ≠ "" ∧ options.modelDir ≠ "" := by
  obtain ⟨found, hfound⟩ := exists_resolves config environment
  have hiff : ∀ result, config.options environment = result ↔ config.Resolves environment result := by
    refine fun result => ⟨?_, options_of_resolves⟩
    rintro rfl
    rwa [options_of_resolves hfound]
  refine ⟨hiff, fun options hoptions => ?_⟩
  cases (hiff _).mp hoptions with
  | resolved _ henumDir hmodelDir => exact ⟨henumDir.ne_empty (by decide), hmodelDir.ne_empty (by decide)⟩

/-- An empty override and an empty variable leave the default, and an absolute path from the file stays. -/
example :
    ({ output := some (.file (.literal "/gen")), enumDir := some (.override ""),
       modelDir := some (.file (.lookup "DIR")), baseDir := some ⟨"app"⟩ } : Config).options
      (.ofDefinitions ["DIR="]) = .ok ⟨⟨"/gen"⟩, "enums", "models"⟩ := rfl

end Options

end Config

end EntityClasses
