import EntityClasses.Proofs.Barrel
import EntityClasses.Proofs.Entity.Imports
import EntityClasses.Proofs.Places

/-! Whether the files of a generation find each other. Barrels and the files of models name files beside
them. The files of the models always stand in `entities`, while the directory of the barrel that exports
them is an option, so which names lead to a file is decided by that option. -/

namespace EntityClasses

namespace Generator

variable (generator : Generator)

open GeneratedFile

/-- The barrels of a generation, each as its directory and the names that it exports. -/
def barrels : List (String × List String) :=
  let { datamodel, options } := generator
  (if datamodel.enums.isEmpty then [] else [(options.enumDir, datamodel.enums.map (·.name))]) ++
  [(options.modelDir, datamodel.models.map (·.name))]

theorem mem_barrels_iff (directory : String) (names : List String) :
    (directory, names) ∈ generator.barrels ↔
      (generator.datamodel.enums ≠ [] ∧ directory = generator.options.enumDir ∧
        names = generator.datamodel.enums.map (·.name)) ∨
      (directory = generator.options.modelDir ∧
        names = generator.datamodel.models.map (·.name)) := by
  rw [barrels]
  by_cases henums : generator.datamodel.enums = [] <;> simp [henums]

theorem barrel_mem_plan {directory : String} {names : List String}
    (hbarrel : (directory, names) ∈ generator.barrels) : barrel directory names ∈ generator.plan := by
  rcases (generator.mem_barrels_iff directory names).mp hbarrel with ⟨henums, rfl, rfl⟩ | ⟨rfl, rfl⟩
  · simp [plan, henums, mk_barrel]
  · simp [plan, mk_barrel]

/-- A barrel among the files stands beside the files of the models and exports those of these names that
are models. -/
def HasBarrel (files : List OutputFile) (imported : List String) : Prop :=
  ∃ directory names, (directory, names) ∈ generator.barrels ∧ barrel directory names ∈ files ∧
    (barrel directory names).path.Same (Path.join ⟨"entities"⟩ ⟨"index.ts"⟩) ∧
    ∀ name ∈ imported, name ∈ generator.datamodel.models.map (·.name) →
      Exports (barrel directory names).content name

/-- What barrels export and what the files of the models import from beside them leads to files. -/
structure SiblingsResolve (files : List OutputFile) : Prop where
  exports : ∀ directory names, (directory, names) ∈ generator.barrels →
    barrel directory names ∈ files →
    ∀ name, Exports (barrel directory names).content name → HasFile files directory name
  imports : ∀ model ∈ generator.datamodel.models, ∀ names,
    ⟨"./", names⟩ ∈ ((Entity.Imports.ofModel model).toTable generator.options.enumDir).imports →
    generator.HasBarrel files names

section Resolving

variable {generator} (hslash : ∀ name ∈ generator.datamodel.names, '/' ∉ name.toList)
  (hline : ∀ name ∈ generator.datamodel.names, '\n' ∉ name.toList)

include hline in
theorem exports_of_mem_barrels {directory : String} {names : List String}
    (hbarrel : (directory, names) ∈ generator.barrels) (name : String) :
    Exports (barrel directory names).content name ↔ name ∈ names := by
  refine exports_barrel_iff directory (fun other hother => hline other ?_) name
  rcases (generator.mem_barrels_iff directory names).mp hbarrel with ⟨-, -, rfl⟩ | ⟨-, rfl⟩
  · exact List.mem_append_left _ hother
  · exact List.mem_append_right _ hother

include hslash in
theorem hasFile_of_enum {name : String} (henum : name ∈ generator.datamodel.enums.map (·.name)) :
    HasFile generator.plan generator.options.enumDir name := by
  have henums : generator.datamodel.enums ≠ [] := by
    intro hempty
    simp [hempty] at henum
  rw [hasFile_plan_iff hslash _ (hslash name (List.mem_append_left _ henum))]
  exact ⟨_, (generator.mem_places_iff _ _).mpr (Or.inl ⟨rfl, henums, Or.inl henum⟩), rfl⟩

include hslash in
/-- The barrel of the models finds a model beside it only where the models are, and a model called
`index` also where the barrel is taken for its file. -/
theorem hasFile_of_model_iff (hdiffer : Registry.PathsDiffer generator.plan) {name : String}
    (hmodel : name ∈ generator.datamodel.models.map (·.name)) :
    HasFile generator.plan generator.options.modelDir name ↔
      (⟨generator.options.modelDir⟩ : Path).Same ⟨"entities"⟩ ∨ name = "index" := by
  rw [hasFile_plan_iff hslash _ (hslash name (List.mem_append_right _ hmodel))]
  constructor
  · rintro ⟨place, hplace, hsame⟩
    rcases (generator.mem_places_iff place name).mp hplace with
      ⟨rfl, henums, -⟩ | ⟨rfl, -⟩ | ⟨-, rfl⟩
    · exact absurd hsame (enumDir_not_same_modelDir hslash hdiffer henums)
    · exact Or.inl hsame.symm
    · exact Or.inr rfl
  · rintro (hsame | rfl)
    · exact ⟨"entities", (generator.mem_places_iff _ _).mpr (Or.inr (Or.inl ⟨rfl, hmodel⟩)),
        hsame.symm⟩
    · exact ⟨_, (generator.mem_places_iff _ _).mpr (Or.inr (Or.inr ⟨Or.inr rfl, rfl⟩)), rfl⟩

theorem dir_same_of_hasBarrel {imported : List String}
    (hbarrel : generator.HasBarrel generator.plan imported) :
    (⟨generator.options.modelDir⟩ : Path).Same ⟨"entities"⟩ ∨
      (generator.datamodel.enums ≠ [] ∧ (⟨generator.options.enumDir⟩ : Path).Same ⟨"entities"⟩) := by
  obtain ⟨directory, names, hmem, -, hpath, -⟩ := hbarrel
  have hsame : (⟨directory⟩ : Path).Same ⟨"entities"⟩ := (Path.same_index_iff directory "entities").mp hpath
  rcases (generator.mem_barrels_iff directory names).mp hmem with ⟨henums, rfl, -⟩ | ⟨rfl, -⟩
  · exact Or.inr ⟨henums, hsame⟩
  · exact Or.inl hsame

include hline in
theorem hasBarrel_of_modelDir_same
    (hsame : (⟨generator.options.modelDir⟩ : Path).Same ⟨"entities"⟩) (imported : List String) :
    generator.HasBarrel generator.plan imported := by
  have hmem := (generator.mem_barrels_iff _ _).mpr (Or.inr ⟨rfl, rfl⟩)
  refine ⟨_, _, hmem, generator.barrel_mem_plan hmem, (Path.same_index_iff _ _).mpr hsame, ?_⟩
  rintro name - hmodel
  exact (exports_of_mem_barrels hline hmem name).mpr hmodel

section Necessity

include hslash

variable (hdiffer : Registry.PathsDiffer generator.plan)
  (hresolve : generator.SiblingsResolve generator.plan)

include hdiffer hresolve

include hline in
theorem modelDir_same_or_index_of_resolve {name : String}
    (hmodel : name ∈ generator.datamodel.models.map (·.name)) :
    (⟨generator.options.modelDir⟩ : Path).Same ⟨"entities"⟩ ∨ name = "index" := by
  have hbarrel := (generator.mem_barrels_iff _ _).mpr (Or.inr ⟨rfl, rfl⟩)
  have hexports := (exports_of_mem_barrels hline hbarrel name).mpr hmodel
  exact (hasFile_of_model_iff hslash hdiffer hmodel).mp
    (hresolve.exports _ _ hbarrel (generator.barrel_mem_plan hbarrel) name hexports)

/-- A barrel of the enums among the models would take the path of the file that imports. -/
theorem relations_eq_nil_of_resolve
    (hapart : ¬ (⟨generator.options.modelDir⟩ : Path).Same ⟨"entities"⟩) {model : Model}
    (hmodel : model ∈ generator.datamodel.models) (hindex : model.name = "index") :
    (Entity.Imports.ofModel model).relations = [] := by
  by_contra hrelations
  have hbarrel := hresolve.imports model hmodel _
    ((Entity.Imports.mem_imports_beside_iff _ _ _).mpr ⟨rfl, hrelations⟩)
  obtain ⟨henums, henumDir⟩ := (dir_same_of_hasBarrel hbarrel).resolve_left hapart
  refine index_notMem_of_enumDir_same hslash hdiffer henums henumDir ?_
  exact List.mem_map.mpr ⟨model, hmodel, hindex⟩

end Necessity

end Resolving

/-- **Siblings find each other** exactly where the barrel of the models stands among them, or where there
is no sibling to find: then every model is called `index`, and its file imports none. -/
theorem siblingsResolve_iff {generator : Generator} {registry : Registry}
    (hslash : ∀ name ∈ generator.datamodel.names, '/' ∉ name.toList)
    (hline : ∀ name ∈ generator.datamodel.names, '\n' ∉ name.toList)
    (hrender : generator.render = .ok registry) :
    generator.SiblingsResolve registry.entries ↔
      (⟨generator.options.modelDir⟩ : Path).Same ⟨"entities"⟩ ∨
      ∀ model ∈ generator.datamodel.models,
        model.name = "index" ∧ (Entity.Imports.ofModel model).relations = [] := by
  obtain ⟨rfl, hdiffer⟩ := plan_of_render hrender
  constructor
  · intro hresolve
    by_cases hsame : (⟨generator.options.modelDir⟩ : Path).Same ⟨"entities"⟩
    · exact Or.inl hsame
    · refine Or.inr fun model hmodel => ?_
      have hname := List.mem_map_of_mem (f := (·.name)) hmodel
      have hindex : model.name = "index" :=
        (modelDir_same_or_index_of_resolve hslash hline hdiffer hresolve hname).resolve_left hsame
      exact ⟨hindex, relations_eq_nil_of_resolve hslash hdiffer hresolve hsame hmodel hindex⟩
  · intro hcondition
    refine ⟨?_, ?_⟩
    · rintro directory names hbarrel - name hexports
      have hname := (exports_of_mem_barrels hline hbarrel name).mp hexports
      rcases (generator.mem_barrels_iff directory names).mp hbarrel with ⟨-, rfl, rfl⟩ | ⟨rfl, rfl⟩
      · exact hasFile_of_enum hslash hname
      · refine (hasFile_of_model_iff hslash hdiffer hname).mpr (hcondition.imp_right fun hmodels => ?_)
        obtain ⟨model, hmodel, rfl⟩ := List.mem_map.mp hname
        exact (hmodels model hmodel).1
    · intro model hmodel names hnames
      obtain ⟨rfl, hrelations⟩ := (Entity.Imports.mem_imports_beside_iff _ _ _).mp hnames
      rcases hcondition with hsame | hmodels
      · exact hasBarrel_of_modelDir_same hline hsame _
      · exact absurd (hmodels model hmodel).2 hrelations

/-- Two models that refer to each other, with the barrel of the models in this directory. -/
def userAndPosts (modelDir : String) : Generator where
  datamodel := ⟨[], [⟨"User", [⟨"posts", .relation "Post", false, true⟩]⟩,
    ⟨"Post", [⟨"author", .relation "User", true, false⟩]⟩]⟩
  options := (Options.new ⟨"gen"⟩).withModelDir modelDir

theorem siblingsResolve_userAndPosts : ∃ registry,
    (userAndPosts "entities").render = .ok registry ∧
      (userAndPosts "entities").SiblingsResolve registry.entries := by
  have hok : (userAndPosts "entities").render.isOk = true := by decide +kernel
  rcases hrender : (userAndPosts "entities").render with failure | registry
  · rw [hrender] at hok
    cases hok
  · exact ⟨registry, rfl, (siblingsResolve_iff (by decide) (by decide) hrender).mpr (Or.inl rfl)⟩

/-- With the directory that is taken if none is given, the barrel of the models finds no model. -/
theorem siblings_not_always_resolve : ¬ ∀ (generator : Generator) (registry : Registry),
    (∀ name ∈ generator.datamodel.names, '/' ∉ name.toList) → generator.render = .ok registry →
    generator.SiblingsResolve registry.entries := by
  intro hresolve
  have hok : (userAndPosts "models").render.isOk = true := by decide +kernel
  rcases hrender : (userAndPosts "models").render with failure | registry
  · rw [hrender] at hok
    cases hok
  · have hslash : ∀ name ∈ (userAndPosts "models").datamodel.names, '/' ∉ name.toList := by decide
    obtain ⟨rfl, hdiffer⟩ := plan_of_render hrender
    have hresolved := hresolve _ _ hslash hrender
    have huser : "User" ∈ (userAndPosts "models").datamodel.models.map (·.name) := by decide
    rcases modelDir_same_or_index_of_resolve hslash (by decide) hdiffer hresolved huser with
      hsame | hindex
    · exact absurd hsame (by decide)
    · exact absurd hindex (by decide)

end Generator

end EntityClasses
