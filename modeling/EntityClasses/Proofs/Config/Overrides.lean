import Mathlib.Data.List.Perm.Basic
import EntityClasses.Proofs.Config.LookUp

/-! Overriding the options of a configuration. The last call with a text decides an option, whatever its
file says and whatever variable its file names: neither is looked at any more. So what is resolved depends
on the last calls, on the options that are left, and on the variables that these name. -/

namespace EntityClasses

namespace Config

/-- Overriding an option. A call without a text leaves it as it is. -/
structure Override where
  key : ConfigKey
  text : Option String
deriving DecidableEq, Repr

namespace Override

/-- One of the calls has a text for this option. -/
def Replaces (calls : List Override) (key : ConfigKey) : Prop :=
  ∃ call ∈ calls, call.key = key ∧ call.text.isSome

instance decidableReplaces (calls : List Override) : DecidablePred (Replaces calls) :=
  fun _ => List.decidableBEx _ _

/-- The text of the last call that has one for this option. -/
def lastText? (key : ConfigKey) : List Override → Option String
  | [] => none
  | call :: calls => (lastText? key calls).or (if call.key = key then call.text else none)

/-- The calls with a text that no later call with a text replaces. -/
def lastCalls : List Override → List Override
  | [] => []
  | call :: calls =>
    if call.text.isSome ∧ ¬ Replaces calls call.key then call :: lastCalls calls else lastCalls calls

end Override

/-- Several calls, one after the other. -/
def overrideAll (config : Config) (calls : List Override) : Config :=
  calls.foldl (fun config call => config.withOverride call.key call.text) config

/-- What a configuration comes to: the options of a generation, and the path of the datamodel. -/
def resolution (config : Config) (environment : Environment) :
    Except SchemaError Options × Except SchemaError (Option Path) :=
  (config.options environment, config.schemaPath environment)

/-- Two environments have the same value for each variable that the configuration names. -/
def Agree (config : Config) (environment other : Environment) : Prop :=
  ∀ key name, config.get key = some (.file (.lookup name)) → environment name = other name

open Override

theorem resolution_congr {config : Config} {environment other : Environment}
    (hagree : config.Agree environment other) :
    config.resolution environment = config.resolution other := by
  simp only [resolution, options, schemaPath, resolveName_eq_lookUp, resolvePath_eq_lookUp,
    lookUp_congr _ _ (hagree _)]

theorem eq_of_get {config other : Config} (hbase : config.baseDir = other.baseDir)
    (hget : ∀ key, config.get key = other.get key) : config = other := by
  have houtput := hget .output
  have henumDir := hget .enumDir
  have hmodelDir := hget .modelDir
  have hschema := hget .schema
  cases config
  cases other
  simp only [get] at *
  subst_vars
  rfl

section Calling

variable (config : Config)

theorem baseDir_withOverride (key : ConfigKey) (text : Option String) :
    (config.withOverride key text).baseDir = config.baseDir := by
  cases text with
  | none => rfl
  | some text => cases key <;> rfl

theorem get_withOverride (key other : ConfigKey) (text : Option String) :
    (config.withOverride key text).get other =
      ((if key = other then text else none).map .override).or (config.get other) := by
  cases text with
  | none => simp [withOverride]
  | some text => cases key <;> cases other <;> rfl

theorem baseDir_overrideAll (calls : List Override) :
    (config.overrideAll calls).baseDir = config.baseDir := by
  induction calls generalizing config with
  | nil => rfl
  | cons call calls ih => exact (ih _).trans (config.baseDir_withOverride call.key call.text)

/-- The last text decides; without one the option stays. -/
theorem get_overrideAll (key : ConfigKey) (calls : List Override) :
    (config.overrideAll calls).get key =
      ((lastText? key calls).map .override).or (config.get key) := by
  induction calls generalizing config with
  | nil => rfl
  | cons call calls ih =>
      have hcalls := ih (config.withOverride call.key call.text)
      rw [overrideAll, List.foldl_cons, ← overrideAll, hcalls, get_withOverride, lastText?,
        ← Option.or_assoc]
      cases lastText? key calls <;> rfl

end Calling

namespace Override

theorem lastText?_eq_none_iff (key : ConfigKey) (calls : List Override) :
    lastText? key calls = none ↔ ¬ Replaces calls key := by
  induction calls with
  | nil => simp [lastText?, Replaces]
  | cons call calls ih =>
      rw [lastText?, Option.or_eq_none_iff, ih]
      simp [Replaces, and_comm]

/-- Leaving out the calls that others replace does not change which text is the last. -/
theorem lastText?_lastCalls (key : ConfigKey) (calls : List Override) :
    lastText? key (lastCalls calls) = lastText? key calls := by
  induction calls with
  | nil => rfl
  | cons call calls ih =>
      rw [lastCalls]
      split_ifs with hkept
      · rw [lastText?, lastText?, ih]
      -- a call that is left out has no text, or a later one replaces it
      · rw [ih, lastText?]
        by_cases hkey : call.key = key
        · subst hkey
          rw [if_pos rfl]
          cases htext : call.text with
          | none => rw [Option.or_none]
          | some text =>
              have hreplaced : Replaces calls call.key := by
                by_contra hnot
                exact hkept ⟨by rw [htext]; rfl, hnot⟩
              obtain ⟨later, hlater⟩ := Option.ne_none_iff_exists'.mp fun hnone =>
                (lastText?_eq_none_iff call.key calls).mp hnone hreplaced
              rw [hlater, Option.some_or]
        · rw [if_neg hkey, Option.or_none]

theorem mem_of_mem_lastCalls {call : Override} {calls : List Override} (hcall : call ∈ lastCalls calls) :
    call ∈ calls ∧ call.text.isSome := by
  induction calls with
  | nil => cases hcall
  | cons first calls ih =>
      have hbehind : call ∈ lastCalls calls → call ∈ first :: calls ∧ call.text.isSome :=
        fun hmem => (ih hmem).imp_left (List.mem_cons_of_mem first)
      rw [lastCalls] at hcall
      split_ifs at hcall with hkept
      · rcases List.mem_cons.mp hcall with rfl | hcall
        · exact ⟨List.mem_cons_self, hkept.1⟩
        · exact hbehind hcall
      · exact hbehind hcall

/-- At most one call is left for each option. -/
theorem pairwise_lastCalls (calls : List Override) :
    (lastCalls calls).Pairwise fun call other => call.key ≠ other.key := by
  induction calls with
  | nil => exact .nil
  | cons call calls ih =>
      rw [lastCalls]
      split_ifs with hkept
      · refine .cons (fun other hother hsame => hkept.2 ?_) ih
        obtain ⟨hmem, htext⟩ := mem_of_mem_lastCalls hother
        exact ⟨other, hmem, hsame.symm, htext⟩
      · exact ih

/-- Where no option is overridden twice, the order of the calls plays no part. -/
theorem lastText?_eq_some_iff {calls : List Override}
    (hdiffer : calls.Pairwise fun call other => call.key ≠ other.key) (key : ConfigKey) (text : String) :
    lastText? key calls = some text ↔ ⟨key, some text⟩ ∈ calls := by
  induction calls with
  | nil => simp [lastText?]
  | cons call calls ih =>
      obtain ⟨hnew, hdiffer⟩ := List.pairwise_cons.mp hdiffer
      rw [lastText?, List.mem_cons]
      by_cases hkey : call.key = key
      · subst hkey
        have hnone : lastText? call.key calls = none := by
          rw [lastText?_eq_none_iff]
          rintro ⟨other, hother, hsame, -⟩
          exact hnew other hother hsame.symm
        have hnotMem : (⟨call.key, some text⟩ : Override) ∉ calls := fun hmem => hnew _ hmem rfl
        rw [hnone, Option.none_or, if_pos rfl, or_iff_left hnotMem]
        constructor
        · intro htext
          rw [← htext]
        · intro hcall
          exact (congrArg Override.text hcall).symm
      · have hother : (⟨key, some text⟩ : Override) ≠ call := fun heq => hkey (heq ▸ rfl)
        rw [if_neg hkey, Option.or_none, ih hdiffer, or_iff_right hother]

theorem lastText?_of_perm {calls others : List Override} (hperm : others.Perm calls)
    (hdiffer : calls.Pairwise fun call other => call.key ≠ other.key) (key : ConfigKey) :
    lastText? key others = lastText? key calls := by
  have hothers := hdiffer.perm hperm.symm Ne.symm
  ext text
  rw [lastText?_eq_some_iff hothers, lastText?_eq_some_iff hdiffer, hperm.mem_iff]

end Override

/-- The last calls alone do the same, in any order. -/
theorem overrideAll_of_perm_lastCalls (config : Config) {calls others : List Override}
    (hothers : others.Perm (lastCalls calls)) : config.overrideAll others = config.overrideAll calls := by
  apply eq_of_get
  · rw [baseDir_overrideAll, baseDir_overrideAll]
  · intro key
    have htext := lastText?_of_perm hothers (pairwise_lastCalls calls) key
    rw [get_overrideAll, get_overrideAll, htext, lastText?_lastCalls]

/-- Configurations that agree on the options that calls leave as they are become the same. -/
theorem overrideAll_congr {config other : Config} {calls : List Override}
    (hbase : config.baseDir = other.baseDir)
    (hrest : ∀ key, ¬ Replaces calls key → config.get key = other.get key) :
    config.overrideAll calls = other.overrideAll calls := by
  apply eq_of_get
  · rw [baseDir_overrideAll, baseDir_overrideAll, hbase]
  · intro key
    rw [get_overrideAll, get_overrideAll]
    cases htext : lastText? key calls with
    | none => rw [hrest key ((lastText?_eq_none_iff key calls).mp htext)]
    | some text => rfl

/-- A variable that is still named after the calls is named by an option that they leave as it is. -/
theorem agree_overrideAll {config : Config} {calls : List Override} {environment other : Environment}
    (hvariables : ∀ key name, ¬ Replaces calls key → config.get key = some (.file (.lookup name)) →
      environment name = other name) :
    (config.overrideAll calls).Agree environment other := by
  intro key name hlookup
  rw [get_overrideAll] at hlookup
  cases htext : lastText? key calls with
  | none =>
      rw [htext] at hlookup
      exact hvariables key name ((lastText?_eq_none_iff key calls).mp htext) hlookup
  | some text =>
      rw [htext] at hlookup
      cases hlookup

/-- **Overridden options and unrelated variables play no part.** -/
theorem resolution_overrideAll_congr {config other : Config} {calls : List Override}
    {environment changed : Environment} (hbase : config.baseDir = other.baseDir)
    (hrest : ∀ key, ¬ Replaces calls key → config.get key = other.get key)
    (hvariables : ∀ key name, ¬ Replaces calls key → config.get key = some (.file (.lookup name)) →
      environment name = changed name) :
    (config.overrideAll calls).resolution environment = (other.overrideAll calls).resolution changed ∧
    ∀ others : List Override, others.Perm (lastCalls calls) →
      (config.overrideAll others).resolution environment =
        (config.overrideAll calls).resolution environment ∧
      (other.overrideAll others).resolution changed =
        (config.overrideAll calls).resolution environment := by
  have hequal : (config.overrideAll calls).resolution environment =
      (other.overrideAll calls).resolution changed := by
    rw [← overrideAll_congr hbase hrest]
    exact resolution_congr (agree_overrideAll hvariables)
  refine ⟨hequal, fun others hothers => ⟨?_, ?_⟩⟩
  · rw [overrideAll_of_perm_lastCalls config hothers]
  · rw [overrideAll_of_perm_lastCalls other hothers, hequal]

/-- A file with this output directory takes the directory of the enums from a variable. -/
def withOutput (output : EnvValue) : Config where
  output := some (.file output)
  enumDir := some (.file (.lookup "KINDS"))
  baseDir := some ⟨"app"⟩

/-- The output directory is overridden twice, the directory of the models once, the datamodel not. -/
def outputTwice : List Override :=
  [⟨.output, some "first"⟩, ⟨.modelDir, some "entities"⟩, ⟨.output, none⟩, ⟨.output, some "gen"⟩,
    ⟨.schema, none⟩]

/-- One file names a variable that is not set, the other one no variable. -/
theorem resolution_outputTwice :
    ((withOutput (.lookup "OUT")).overrideAll outputTwice).resolution (.ofDefinitions ["KINDS=kinds"]) =
      (.ok ⟨⟨"gen"⟩, "kinds", "entities"⟩, .ok none) ∧
    ((withOutput (.literal "out")).overrideAll
        [⟨.output, some "gen"⟩, ⟨.modelDir, some "entities"⟩]).resolution
      (.ofDefinitions ["OUT=other", "KINDS=kinds"]) = (.ok ⟨⟨"gen"⟩, "kinds", "entities"⟩, .ok none) := by
  have hbase : (withOutput (.lookup "OUT")).baseDir = (withOutput (.literal "out")).baseDir := rfl
  have hrest : ∀ key, ¬ Replaces outputTwice key →
      (withOutput (.lookup "OUT")).get key = (withOutput (.literal "out")).get key := by
    intro key hkept
    cases key with
    | output => exact absurd (by decide) hkept
    | _ => rfl
  have hvariables : ∀ key name, ¬ Replaces outputTwice key →
      (withOutput (.lookup "OUT")).get key = some (.file (.lookup name)) →
      Environment.ofDefinitions ["KINDS=kinds"] name =
        Environment.ofDefinitions ["OUT=other", "KINDS=kinds"] name := by
    intro key name hkept hlookup
    cases key with
    | output => exact absurd (by decide) hkept
    | enumDir =>
        cases hlookup
        rfl
    | modelDir | schema => cases hlookup
  have hfirst : ((withOutput (.lookup "OUT")).overrideAll outputTwice).resolution
      (.ofDefinitions ["KINDS=kinds"]) = (.ok ⟨⟨"gen"⟩, "kinds", "entities"⟩, .ok none) := rfl
  obtain ⟨-, hlast⟩ := resolution_overrideAll_congr hbase hrest hvariables
  exact ⟨hfirst, ((hlast _ (.swap ..)).2).trans hfirst⟩

end Config

end EntityClasses
