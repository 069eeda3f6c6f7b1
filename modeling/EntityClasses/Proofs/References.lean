import EntityClasses.Check
import EntityClasses.Generator
import EntityClasses.Proofs.Barrel
import EntityClasses.Proofs.Entity.Imports

/-! Where the types of fields lead. A check looks every type up among the declarations. The file of a model
imports what its relations and enums name and leaves the look-up to the barrels. The two agree: a check
without warnings means that every import of a declaration is met by a barrel, and the other way round. -/

namespace EntityClasses

namespace Datamodel

/-- The fields of all models, each with its model, by model and then by field. -/
def modelFields (datamodel : Datamodel) : List (Model × Field) :=
  datamodel.models.flatMap fun model => model.fields.map (model, ·)

/-- Types that name an enum or a model that is declared nowhere. -/
def Unresolved (datamodel : Datamodel) : FieldType → Prop
  | .enum name => name ∉ datamodel.enums.map (·.name)
  | .relation name => name ∉ datamodel.models.map (·.name)
  | _ => False

instance decidableUnresolved (datamodel : Datamodel) : DecidablePred datamodel.Unresolved
  | .enum _ | .relation _ => instDecidableNot
  | .int | .float | .string | .boolean | .dateTime | .decimal | .json | .other _ =>
    inferInstanceAs (Decidable False)

end Datamodel

/-- A warning is about a field when it has its name, that of its model, and the one that its type gives. -/
inductive DanglingReference.IsAbout : Model × Field → DanglingReference → Prop where
  | toEnum {model : Model} {field : Field} {name : String} (htype : field.type = .enum name) :
      IsAbout (model, field) (.toEnum model.name field.name name)
  | toModel {model : Model} {field : Field} {name : String} (htype : field.type = .relation name) :
      IsAbout (model, field) (.toModel model.name field.name name)

namespace Datamodel

open DanglingReference

variable (datamodel : Datamodel)

theorem isNone_findEnum?_iff (name : String) :
    (datamodel.findEnum? name).isNone ↔ name ∉ datamodel.enums.map (·.name) := by
  simp [findEnum?]

theorem isNone_findModel?_iff (name : String) :
    (datamodel.findModel? name).isNone ↔ name ∉ datamodel.models.map (·.name) := by
  simp [findModel?]

theorem danglingReference?_cases (model : Model) (field : Field) :
    (datamodel.Unresolved field.type ∧ ∃ reference,
      datamodel.danglingReference? model field = some reference ∧ IsAbout (model, field) reference) ∨
    (¬ datamodel.Unresolved field.type ∧ datamodel.danglingReference? model field = none) := by
  unfold danglingReference?
  cases htype : field.type with
  | enum name =>
      by_cases hmissing : name ∉ datamodel.enums.map (·.name)
      · have hfind := (datamodel.isNone_findEnum?_iff name).mpr hmissing
        exact Or.inl ⟨hmissing, _, if_pos hfind, .toEnum htype⟩
      · exact Or.inr ⟨hmissing, if_neg (mt (datamodel.isNone_findEnum?_iff name).mp hmissing)⟩
  | relation name =>
      by_cases hmissing : name ∉ datamodel.models.map (·.name)
      · have hfind := (datamodel.isNone_findModel?_iff name).mpr hmissing
        exact Or.inl ⟨hmissing, _, if_pos hfind, .toModel htype⟩
      · exact Or.inr ⟨hmissing, if_neg (mt (datamodel.isNone_findModel?_iff name).mp hmissing)⟩
  | _ => exact Or.inr ⟨not_false, rfl⟩

theorem danglingReferences_eq_filterMap :
    datamodel.danglingReferences =
      datamodel.modelFields.filterMap fun entry => datamodel.danglingReference? entry.1 entry.2 := by
  rw [danglingReferences, modelFields, List.filterMap_flatMap]
  simp only [List.filterMap_map]
  rfl

/-- One warning for each unresolved field, and none for any other. -/
theorem danglingReferences_about :
    List.Forall₂ IsAbout (datamodel.modelFields.filter (datamodel.Unresolved ·.2.type))
      datamodel.danglingReferences := by
  rw [danglingReferences_eq_filterMap]
  induction datamodel.modelFields with
  | nil => exact .nil
  | cons entry entries ih =>
      rcases datamodel.danglingReference?_cases entry.1 entry.2 with
        ⟨hunresolved, reference, hreference, habout⟩ | ⟨hresolved, hnone⟩
      · rw [List.filter_cons_of_pos (by simpa using hunresolved), List.filterMap_cons, hreference]
        exact .cons habout ih
      · rw [List.filter_cons_of_neg (by simpa using hresolved), List.filterMap_cons, hnone]
        exact ih

theorem danglingReferences_eq_nil_iff :
    datamodel.danglingReferences = [] ↔
      ∀ model ∈ datamodel.models, ∀ field ∈ model.fields, ¬ datamodel.Unresolved field.type := by
  have hempty : datamodel.danglingReferences = [] ↔
      datamodel.modelFields.filter (datamodel.Unresolved ·.2.type) = [] := by
    have habout := datamodel.danglingReferences_about
    constructor
    · intro hnone
      rwa [hnone, List.forall₂_nil_right_iff] at habout
    · intro hnone
      rwa [hnone, List.forall₂_nil_left_iff] at habout
  rw [hempty, List.filter_eq_nil_iff]
  simp only [modelFields, List.forall_mem_flatMap, List.forall_mem_map, decide_eq_true_eq]

end Datamodel

namespace Generator

open GeneratedFile

variable (generator : Generator)

/-- A phase of the generation emits the barrel of these names, and this is one that the barrel lists. -/
structure Lists (phase : Phase) (directory : String) (names : List String) (name : String) : Prop where
  emitted : phase ∈ generator.phases
  files : phase.files generator.datamodel generator.options = [barrel directory names]
  listed : name ∈ sorted names

/-- The barrel of the enums lists the enums that the file of this model imports, and the barrel of the
models lists the models that it imports. -/
structure ListsImports (model : Model) : Prop where
  enums : ∀ name ∈ (Entity.Imports.ofModel model).enums,
    generator.Lists .emitEnumIndex generator.options.enumDir
      (generator.datamodel.enums.map (·.name)) name
  relations : ∀ name ∈ (Entity.Imports.ofModel model).relations,
    generator.Lists .emitModelIndex generator.options.modelDir
      (generator.datamodel.models.map (·.name)) name

/-- A listed enum is declared, and where one is declared the barrel is emitted. -/
theorem lists_enum_iff (name : String) :
    generator.Lists .emitEnumIndex generator.options.enumDir
        (generator.datamodel.enums.map (·.name)) name ↔
      name ∈ generator.datamodel.enums.map (·.name) := by
  refine ⟨fun hlists => (sorted_perm _).mem_iff.mp hlists.listed, fun hname => ⟨?_, rfl, ?_⟩⟩
  · obtain ⟨enum, henum, -⟩ := List.mem_map.mp hname
    have henums : generator.datamodel.enums.isEmpty = false :=
      List.isEmpty_eq_false_iff.mpr (List.ne_nil_of_mem henum)
    simp [phases, Phase.ofDatamodel, Phase.all, henums]
  · exact (sorted_perm _).mem_iff.mpr hname

theorem lists_model_iff (name : String) :
    generator.Lists .emitModelIndex generator.options.modelDir
        (generator.datamodel.models.map (·.name)) name ↔
      name ∈ generator.datamodel.models.map (·.name) := by
  refine ⟨fun hlists => (sorted_perm _).mem_iff.mp hlists.listed, fun hname => ⟨?_, rfl, ?_⟩⟩
  · simp [phases, Phase.ofDatamodel, Phase.all]
  · exact (sorted_perm _).mem_iff.mpr hname

/-- A relation of a model to itself is not imported, but its model is declared. -/
theorem listsImports_iff {model : Model} (hmodel : model ∈ generator.datamodel.models) :
    generator.ListsImports model ↔
      ∀ field ∈ model.fields, ¬ generator.datamodel.Unresolved field.type := by
  constructor
  · intro hlists field hfield hunresolved
    cases htype : field.type with
    | enum name =>
        rw [htype] at hunresolved
        have hname := (Entity.Imports.mem_enums_iff model name).mpr ⟨field, hfield, htype⟩
        exact hunresolved ((generator.lists_enum_iff name).mp (hlists.enums name hname))
    | relation name =>
        rw [htype] at hunresolved
        -- the import leaves out the model itself, which the check finds like any other
        by_cases hself : name = model.name
        · subst hself
          exact hunresolved (List.mem_map_of_mem hmodel)
        · have hname := (Entity.Imports.mem_relations_iff model name).mpr ⟨field, hfield, htype, hself⟩
          exact hunresolved ((generator.lists_model_iff name).mp (hlists.relations name hname))
    | _ =>
        rw [htype] at hunresolved
        exact hunresolved
  · intro hresolved
    refine ⟨fun name hname => ?_, fun name hname => ?_⟩
    · obtain ⟨field, hfield, htype⟩ := (Entity.Imports.mem_enums_iff model name).mp hname
      have hfound := hresolved field hfield
      rw [htype] at hfound
      exact (generator.lists_enum_iff name).mpr (not_not.mp hfound)
    · obtain ⟨field, hfield, htype, -⟩ := (Entity.Imports.mem_relations_iff model name).mp hname
      have hfound := hresolved field hfield
      rw [htype] at hfound
      exact (generator.lists_model_iff name).mpr (not_not.mp hfound)

/-- **A check warns about what a generation does not resolve**, once for each field, and about nothing
else. -/
theorem check_warns_of_unresolved (schemaPath : Path) :
    List.Forall₂ DanglingReference.IsAbout
      (generator.datamodel.modelFields.filter (generator.datamodel.Unresolved ·.2.type))
      (check generator.datamodel schemaPath).warnings ∧
    ((check generator.datamodel schemaPath).warnings = [] ↔
      ∀ model ∈ generator.datamodel.models, generator.ListsImports model) := by
  refine ⟨generator.datamodel.danglingReferences_about, ?_⟩
  rw [check, Datamodel.danglingReferences_eq_nil_iff]
  exact forall₂_congr fun model hmodel => (generator.listsImports_iff hmodel).symm

/-- A name is looked up by its kind: a model does not stand in for an enum of its name. -/
example : (check ⟨[], [⟨"User", [⟨"kind", .enum "User", true, false⟩,
    ⟨"next", .relation "User", false, false⟩]⟩]⟩ ⟨"schema.json"⟩).warnings =
    [.toEnum "User" "kind" "User"] := by decide

end Generator

end EntityClasses
