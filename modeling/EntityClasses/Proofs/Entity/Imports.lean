import EntityClasses.Entity.Imports
import EntityClasses.Proofs.TypeScript.ImportTable

/-! What the file of a model imports. Its symbols come in six groups, and what is collected of a group is
what the fields need of it, one field after the other, each symbol once. The table of the imports is filled
with one group after the other. -/

namespace EntityClasses

open TypeScript

namespace Entity

/-- What the file of a model imports, in the order of its statements. -/
inductive ImportGroup where
  | prisma
  | transformers
  | validators
  | relations
  | helpers
  | enums
deriving DecidableEq

namespace ImportGroup

def all : List ImportGroup :=
  [prisma, transformers, validators, relations, helpers, enums]

def source (enumDir : String) : ImportGroup → String
  | prisma => "@prisma/client"
  | transformers => "class-transformer"
  | validators => "class-validator"
  | relations => "./"
  | helpers => "../helpers"
  | enums => "../" ++ enumDir

theorem parent_ne {source : String} (hsource : source.toList.take 3 ≠ ['.', '.', '/'])
    (enumDir : String) : "../" ++ enumDir ≠ source := by
  rintro rfl
  simp at hsource

/-- Two groups have one source only where the enums stand in the directory of the helpers. -/
theorem source_eq_iff (enumDir : String) (group other : ImportGroup) :
    group.source enumDir = other.source enumDir ↔
      group = other ∨
        (enumDir = "helpers" ∧ group ∈ [helpers, enums] ∧ other ∈ [helpers, enums]) := by
  have hhelpers : "../helpers" = "../" ++ enumDir ↔ enumDir = "helpers" := by
    rw [show "../helpers" = "../" ++ "helpers" by decide, String.append_right_inj, eq_comm]
  have hprisma : "../" ++ enumDir ≠ "@prisma/client" := parent_ne (by decide) enumDir
  have htransformers : "../" ++ enumDir ≠ "class-transformer" := parent_ne (by decide) enumDir
  have hvalidators : "../" ++ enumDir ≠ "class-validator" := parent_ne (by decide) enumDir
  have hrelations : "../" ++ enumDir ≠ "./" := parent_ne (by decide) enumDir
  cases group <;> cases other <;>
    simp [source, hhelpers, hprisma, htransformers, hvalidators, hrelations, hprisma.symm,
      htransformers.symm, hvalidators.symm, hrelations.symm, eq_comm (a := "../" ++ enumDir)]

/-- The groups that share the statement of a group. -/
theorem filter_source (enumDir : String) (group : ImportGroup) :
    all.filter (·.source enumDir = group.source enumDir) =
      if enumDir = "helpers" ∧ group ∈ [helpers, enums] then [helpers, enums] else [group] := by
  simp only [source_eq_iff]
  by_cases hhelpers : enumDir = "helpers" <;> cases group <;> simp [all, hhelpers]

/-- What one field of a model needs of a group. -/
def symbolsOf (modelName : String) (field : Field) : ImportGroup → List String
  | prisma => match field.type with
    | .json => ["Prisma"]
    | _ => []
  | transformers => field.transformerSymbols
  | validators => field.validatorSymbols
  | relations => match field.type with
    | .relation target => if target = modelName then [] else [target]
    | _ => []
  | helpers => match field.type with
    | .enum _ => ["getEnumValues"]
    | _ => []
  | enums => match field.type with
    | .enum name => [name]
    | _ => []

end ImportGroup

namespace Imports

/-- The collected symbols of a group. -/
def symbols (imports : Imports) : ImportGroup → List String
  | .prisma => if imports.needsPrisma then ["Prisma"] else []
  | .transformers => imports.transformers
  | .validators => imports.validators
  | .relations => imports.relations
  | .helpers => if imports.needsHelpers then ["getEnumValues"] else []
  | .enums => imports.enums

theorem symbols_addField (modelName : String) (imports : Imports) (field : Field)
    (group : ImportGroup) :
    (addField modelName imports field).symbols group =
      (group.symbolsOf modelName field).foldl insertOnce (imports.symbols group) := by
  obtain ⟨name, type, isRequired, isList⟩ := field
  have hflag : ∀ (flag : Bool) (symbol : String),
      insertOnce (if flag then [symbol] else []) symbol = [symbol] := by
    rintro (_ | _) symbol <;> simp [insertOnce]
  cases type with
  | relation target =>
      by_cases htarget : target = modelName <;> cases group <;>
        simp [addField, symbols, ImportGroup.symbolsOf, htarget]
  | json =>
      cases group with
      | prisma => exact (hflag imports.needsPrisma "Prisma").symm
      | _ => rfl
  | enum =>
      cases group with
      | helpers => exact (hflag imports.needsHelpers "getEnumValues").symm
      | _ => rfl
  | _ => cases group <;> rfl

/-- What a model imports of a group is what its fields need of it. -/
theorem symbols_ofModel (model : Model) (group : ImportGroup) :
    (ofModel model).symbols group =
      (model.fields.flatMap (group.symbolsOf model.name)).eraseDups := by
  have hfold : ∀ (fields : List Field) (imports : Imports),
      (fields.foldl (addField model.name) imports).symbols group =
        (fields.flatMap (group.symbolsOf model.name)).foldl insertOnce (imports.symbols group) := by
    intro fields
    induction fields with
    | nil => exact fun _ => rfl
    | cons field fields ih =>
        intro imports
        rw [List.foldl_cons, ih, symbols_addField, List.flatMap_cons, List.foldl_append]
  have hempty : Imports.symbols {} group = [] := by cases group <;> rfl
  rw [ofModel, hfold, hempty, foldl_insertOnce]

theorem mem_symbols_iff (model : Model) (group : ImportGroup) (symbol : String) :
    symbol ∈ (ofModel model).symbols group ↔
      ∃ field ∈ model.fields, symbol ∈ group.symbolsOf model.name field := by
  rw [symbols_ofModel, List.mem_eraseDups, List.mem_flatMap]

theorem nodup_symbols (model : Model) (group : ImportGroup) : ((ofModel model).symbols group).Nodup := by
  rw [symbols_ofModel]
  exact nodup_eraseDups _

theorem mem_enums_iff (model : Model) (name : String) :
    name ∈ (ofModel model).enums ↔ ∃ field ∈ model.fields, field.type = .enum name := by
  refine (mem_symbols_iff model .enums name).trans ?_
  refine exists_congr fun field => and_congr_right fun _ => ?_
  cases htype : field.type <;> simp [ImportGroup.symbolsOf, htype, eq_comm]

/-- A relation of a model to itself is not collected. -/
theorem mem_relations_iff (model : Model) (name : String) :
    name ∈ (ofModel model).relations ↔
      ∃ field ∈ model.fields, field.type = .relation name ∧ name ≠ model.name := by
  refine (mem_symbols_iff model .relations name).trans ?_
  refine exists_congr fun field => and_congr_right fun _ => ?_
  cases htype : field.type with
  | relation target =>
      by_cases htarget : target = model.name <;>
        simp +contextual [ImportGroup.symbolsOf, htype, htarget, eq_comm]
  | _ => simp [ImportGroup.symbolsOf, htype]

theorem toTable_eq_ofPairs (imports : Imports) (enumDir : String) :
    imports.toTable enumDir = ImportTable.ofPairs
      (ImportTable.pairsOf (ImportGroup.source enumDir) imports.symbols ImportGroup.all) := by
  have hempty : ImportTable.empty = ImportTable.ofPairs [] := rfl
  rw [toTable, hempty, ImportTable.addAll_ofPairs, ImportTable.addAll_ofPairs,
    ImportTable.addAll_ofPairs, ImportTable.addAll_ofPairs, ImportTable.addAll_ofPairs,
    ImportTable.addAll_ofPairs]
  simp [ImportTable.pairsOf, ImportGroup.all, ImportGroup.source, symbols, List.append_assoc]

/-- An entry has the symbols of the groups with its source. -/
theorem mem_entries_toTable_iff (imports : Imports) (enumDir source : String) (names : List String) :
    (source, names) ∈ (imports.toTable enumDir).entries ↔
      names = ((ImportGroup.all.filter (·.source enumDir = source)).flatMap imports.symbols).eraseDups ∧
        names ≠ [] := by
  rw [toTable_eq_ofPairs, ImportTable.mem_entries_ofPairs_iff, ImportTable.symbolsFrom_pairsOf]

theorem nodup_sources (imports : Imports) (enumDir : String) :
    ((imports.toTable enumDir).entries.map (·.1)).Nodup := by
  rw [toTable_eq_ofPairs]
  exact ImportTable.nodup_sources_ofPairs _

theorem nodup_of_mem_entries {imports : Imports} {enumDir : String} {entry : String × List String}
    (hentry : entry ∈ (imports.toTable enumDir).entries) : entry.2.Nodup := by
  rw [toTable_eq_ofPairs] at hentry
  exact ImportTable.nodup_of_mem_entries_ofPairs hentry

/-- The statement that imports from the files beside, if there is one, names the relations. -/
theorem mem_imports_beside_iff (model : Model) (enumDir : String) (names : List String) :
    ⟨"./", names⟩ ∈ ((ofModel model).toTable enumDir).imports ↔
      names = (ofModel model).relations ∧ names ≠ [] := by
  have hgroups : ImportGroup.all.filter (·.source enumDir = "./") = [.relations] :=
    (ImportGroup.filter_source enumDir .relations).trans (if_neg (by simp))
  rw [ImportTable.mem_imports_iff, mem_entries_toTable_iff, hgroups, List.flatMap_singleton,
    eraseDups_of_nodup (nodup_symbols model .relations), and_assoc, and_self_iff]
  rfl

end Imports

end Entity

end EntityClasses
