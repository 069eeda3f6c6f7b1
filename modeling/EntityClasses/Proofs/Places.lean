import EntityClasses.Proofs.Path.Beside
import EntityClasses.Proofs.Registration

/-! Where the files of a generation stand: each in a directory, called after a name. As long as names hold
no slashes, two files have one path exactly when directory and name agree, so what rendering demands of
paths becomes a demand on directories and names. -/

namespace EntityClasses

/-- The names that files are called after. -/
def Datamodel.names (datamodel : Datamodel) : List String :=
  datamodel.enums.map (·.name) ++ datamodel.models.map (·.name)

/-- Some file stands in this directory and is called after this name. -/
def HasFile (files : List OutputFile) (directory name : String) : Prop :=
  ∃ file ∈ files, file.path.Same (Path.join ⟨directory⟩ ⟨name ++ ".ts"⟩)

namespace Generator

variable (generator : Generator)

/-- Where the files of a generation stand: the directory, and the name that the file is called after. -/
def places : List (String × String) :=
  let { datamodel, options } := generator
  datamodel.enums.map (fun definition => (options.enumDir, definition.name)) ++
  (if datamodel.enums.isEmpty then [] else [(options.enumDir, "index")]) ++
  datamodel.models.map (fun model => ("entities", model.name)) ++
  [("helpers", "index"), (options.modelDir, "index")]

theorem plannedPaths_eq_places :
    generator.plannedPaths =
      generator.places.map fun place => Path.join ⟨place.1⟩ ⟨place.2 ++ ".ts"⟩ := by
  have hindex : "index.ts" = "index" ++ ".ts" := by decide
  rw [plannedPaths, plan, places, hindex]
  split_ifs <;> simp [Function.comp_def]

theorem mem_places_iff (directory name : String) :
    (directory, name) ∈ generator.places ↔
      (directory = generator.options.enumDir ∧ generator.datamodel.enums ≠ [] ∧
        (name ∈ generator.datamodel.enums.map (·.name) ∨ name = "index")) ∨
      (directory = "entities" ∧ name ∈ generator.datamodel.models.map (·.name)) ∨
      ((directory = "helpers" ∨ directory = generator.options.modelDir) ∧ name = "index") := by
  have hmap : ∀ {α : Type} (named : α → String) (place : String) (as : List α),
      (directory, name) ∈ as.map (fun a => (place, named a)) ↔
        directory = place ∧ name ∈ as.map named := by
    intro α named place as
    rw [List.mem_map, List.mem_map]
    constructor
    · rintro ⟨a, ha, heq⟩
      cases heq
      exact ⟨rfl, a, ha, rfl⟩
    · rintro ⟨rfl, a, ha, rfl⟩
      exact ⟨a, ha, rfl⟩
  rw [places]
  simp only [List.mem_append, hmap, List.mem_cons, List.not_mem_nil, or_false, Prod.mk.injEq]
  by_cases henums : generator.datamodel.enums = []
  · simp [henums, or_and_right]
  · simp [henums, or_and_right, and_or_left, or_assoc]

section Places

variable {generator} (hslash : ∀ name ∈ generator.datamodel.names, '/' ∉ name.toList)

include hslash

theorem slash_notMem_of_mem_places {directory name : String}
    (hplace : (directory, name) ∈ generator.places) : '/' ∉ name.toList := by
  rw [mem_places_iff] at hplace
  rcases hplace with ⟨-, -, henum | rfl⟩ | ⟨-, hmodel⟩ | ⟨-, rfl⟩
  · exact hslash name (List.mem_append_left _ henum)
  · decide
  · exact hslash name (List.mem_append_right _ hmodel)
  · decide

theorem hasFile_plan_iff (directory : String) {name : String} (hname : '/' ∉ name.toList) :
    HasFile generator.plan directory name ↔
      ∃ place, (place, name) ∈ generator.places ∧ (⟨place⟩ : Path).Same ⟨directory⟩ := by
  have hpaths : HasFile generator.plan directory name ↔
      ∃ path ∈ generator.plannedPaths, path.Same (Path.join ⟨directory⟩ ⟨name ++ ".ts"⟩) := by
    simp [HasFile, plannedPaths]
  rw [hpaths, plannedPaths_eq_places]
  constructor
  · rintro ⟨path, hpath, hsame⟩
    obtain ⟨⟨place, other⟩, hplace, rfl⟩ := List.mem_map.mp hpath
    obtain ⟨hdirectory, rfl⟩ :=
      (Path.same_file_iff (slash_notMem_of_mem_places hslash hplace) hname).mp hsame
    exact ⟨place, hplace, hdirectory⟩
  · rintro ⟨place, hplace, hdirectory⟩
    exact ⟨_, List.mem_map_of_mem hplace, (Path.same_file_iff hname hname).mpr ⟨hdirectory, rfl⟩⟩

theorem pathsDiffer_iff_places_differ :
    Registry.PathsDiffer generator.plan ↔
      generator.places.Pairwise fun place other =>
        ¬ ((⟨place.1⟩ : Path).Same ⟨other.1⟩ ∧ place.2 = other.2) := by
  rw [pathsDiffer_plan_iff, plannedPaths_eq_places, List.pairwise_map]
  refine List.Pairwise.iff_of_mem ?_
  intro place other hplace hother
  rw [Path.same_file_iff (slash_notMem_of_mem_places hslash hplace)
    (slash_notMem_of_mem_places hslash hother)]

variable (hdiffer : Registry.PathsDiffer generator.plan) (henums : generator.datamodel.enums ≠ [])

include hdiffer henums

/-- The two barrels stand in different directories. -/
theorem enumDir_not_same_modelDir :
    ¬ (⟨generator.options.enumDir⟩ : Path).Same ⟨generator.options.modelDir⟩ := by
  intro hsame
  have hplaces := (pathsDiffer_iff_places_differ hslash).mp hdiffer
  rw [places, List.pairwise_append] at hplaces
  exact hplaces.2.2 (generator.options.enumDir, "index") (by simp [henums])
    (generator.options.modelDir, "index") (by simp) ⟨hsame, rfl⟩

/-- Beside the barrel of the enums no model is called `index`. -/
theorem index_notMem_of_enumDir_same
    (hsame : (⟨generator.options.enumDir⟩ : Path).Same ⟨"entities"⟩) :
    "index" ∉ generator.datamodel.models.map (·.name) := by
  intro hindex
  obtain ⟨model, hmodel, hname⟩ := List.mem_map.mp hindex
  have hplaces := (pathsDiffer_iff_places_differ hslash).mp hdiffer
  rw [places, List.pairwise_append, List.pairwise_append] at hplaces
  exact hplaces.1.2.2 (generator.options.enumDir, "index") (by simp [henums]) ("entities", model.name)
    (List.mem_map_of_mem hmodel) ⟨hsame, hname.symm⟩

end Places

end Generator

end EntityClasses
