import EntityClasses.Config

/-! Looking an option up. A name and a path are found in the same way and differ in what is made of the
text: an override is taken as it is, and a path from a file may start in the directory of that file. What
is found depends on the variable that the file names, and fails if it is not set. -/

namespace EntityClasses

theorem EnvValue.resolve_congr {environment other : Environment} (optionName : String)
    {value : EnvValue} (hagree : ∀ name, value = .lookup name → environment name = other name) :
    value.resolve environment optionName = value.resolve other optionName := by
  cases value with
  | literal text => rfl
  | lookup name => rw [resolve, resolve, hagree name rfl]

namespace Config

/-- The text of an option, as `ofOverride` makes it of an override and `ofFile` of the value of a file. -/
def lookUp {α : Type} (config : Config) (environment : Environment) (key : ConfigKey)
    (ofOverride ofFile : String → α) : Except SchemaError (Option α) :=
  match config.get key with
  | none => .ok none
  | some (.override text) => .ok (some (ofOverride text))
  | some (.file value) => (value.resolve environment key.name).map fun text => some (ofFile text)

/-- A path from a file, seen from where the program runs. -/
def fromFile (config : Config) (text : String) : Path :=
  match config.baseDir with
  | some base => base.join ⟨text⟩
  | none => ⟨text⟩

section LookUp

variable {config : Config} {environment other : Environment} {key : ConfigKey}

theorem resolveName_eq_lookUp : config.resolveName environment key = config.lookUp environment key id id :=
  rfl

theorem resolvePath_eq_lookUp :
    config.resolvePath environment key = config.lookUp environment key Path.mk config.fromFile := by
  unfold resolvePath lookUp fromFile
  cases config.baseDir <;> rfl

variable {α : Type} (ofOverride ofFile : String → α)

theorem lookUp_of_none (hnone : config.get key = none) :
    config.lookUp environment key ofOverride ofFile = .ok none := by
  rw [lookUp, hnone]

theorem lookUp_of_override {text : String} (hget : config.get key = some (.override text)) :
    config.lookUp environment key ofOverride ofFile = .ok (some (ofOverride text)) := by
  rw [lookUp, hget]

theorem lookUp_of_file {value : EnvValue} {text : String} (hget : config.get key = some (.file value))
    (hresolve : value.resolve environment key.name = .ok text) :
    config.lookUp environment key ofOverride ofFile = .ok (some (ofFile text)) := by
  rw [lookUp, hget]
  dsimp only
  rw [hresolve]
  rfl

theorem lookUp_of_unset {name : String} (hget : config.get key = some (.file (.lookup name)))
    (hunset : environment name = none) :
    config.lookUp environment key ofOverride ofFile = .error (.missingVariable name key.name) := by
  rw [lookUp, hget]
  dsimp only
  rw [EnvValue.resolve, hunset]
  rfl

/-- Only the variable that the option names is looked at. -/
theorem lookUp_congr
    (hagree : ∀ name, config.get key = some (.file (.lookup name)) → environment name = other name) :
    config.lookUp environment key ofOverride ofFile = config.lookUp other key ofOverride ofFile := by
  unfold lookUp
  split
  · rfl
  · rfl
  · next value hvalue =>
      rw [EnvValue.resolve_congr key.name fun name hname => hagree name (hname ▸ hvalue)]

end LookUp

end Config

end EntityClasses
