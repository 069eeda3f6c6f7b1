import Mathlib.Data.List.Basic
import EntityClasses.Generator

/-! Which files a generation registers. Rendering visits its phases one after the other and every
phase registers its files one after the other, but what comes out is decided by one list, the plan:
it is registered as it stands when its paths are pairwise different, and else rendering fails at the
first path that stands in the plan already. -/

namespace EntityClasses

namespace Registry

/-- No two of these files have the same path, however it is spelled. -/
def PathsDiffer (files : List OutputFile) : Prop :=
  files.Pairwise fun file other => ¬ file.path.Same other.path

theorem pathsDiffer_concat (files : List OutputFile) (file : OutputFile) :
    PathsDiffer (files ++ [file]) ↔
      PathsDiffer files ∧ ∀ other ∈ files, ¬ other.path.Same file.path := by
  simp [PathsDiffer, List.pairwise_append]

theorem isSome_get?_iff (registry : Registry) (path : Path) :
    (registry.get? path).isSome ↔ ∃ other ∈ registry.entries, other.path.Same path := by
  simp [get?, List.find?_isSome]

theorem register_new (registry : Registry) (file : OutputFile)
    (hnew : ∀ other ∈ registry.entries, ¬ other.path.Same file.path) :
    registry.register file = .ok ⟨registry.entries ++ [file]⟩ := by
  have hget : ¬ (registry.get? file.path).isSome := by
    rw [isSome_get?_iff]
    rintro ⟨other, hmem, hsame⟩
    exact hnew other hmem hsame
  rw [register, if_neg hget]

theorem register_repeated (registry : Registry) (file : OutputFile)
    (hold : ∃ other ∈ registry.entries, other.path.Same file.path) :
    registry.register file = .error (.repeatedPath file.path) := by
  rw [register, if_pos ((isSome_get?_iff registry file.path).mpr hold)]

/-- Files registered one after the other: either all of them get in, or the first whose path is
taken ends it. -/
theorem registerAll_cases (files entries : List OutputFile) (hentries : PathsDiffer entries) :
    (PathsDiffer (entries ++ files) ∧
      files.foldlM register ⟨entries⟩ = .ok ⟨entries ++ files⟩) ∨
    ∃ earlier file later, files = earlier ++ file :: later ∧
      PathsDiffer (entries ++ earlier) ∧
      (∃ other ∈ entries ++ earlier, other.path.Same file.path) ∧
      files.foldlM register ⟨entries⟩ = .error (.repeatedPath file.path) := by
  induction files generalizing entries with
  | nil => exact Or.inl ⟨by simpa using hentries, by simp [pure, Except.pure]⟩
  | cons file files ih =>
      by_cases hold : ∃ other ∈ entries, other.path.Same file.path
      · refine Or.inr ⟨[], file, files, rfl, by simpa using hentries, by simpa using hold, ?_⟩
        rw [List.foldlM_cons, register_repeated ⟨entries⟩ file hold]
        rfl
      · have hnew : ∀ other ∈ entries, ¬ other.path.Same file.path :=
          fun other hmem hsame => hold ⟨other, hmem, hsame⟩
        have hnext : PathsDiffer (entries ++ [file]) :=
          (pathsDiffer_concat entries file).mpr ⟨hentries, hnew⟩
        have hfold : (file :: files).foldlM register ⟨entries⟩ =
            files.foldlM register ⟨entries ++ [file]⟩ := by
          rw [List.foldlM_cons, register_new ⟨entries⟩ file hnew]
          rfl
        rw [hfold]
        rcases ih (entries ++ [file]) hnext with ⟨hall, hok⟩ | ⟨earlier, last, later, hsplit, hearlier, hsame, herr⟩
        · rw [List.append_assoc] at hall
          exact Or.inl ⟨hall, by rw [hok, List.append_assoc]; rfl⟩
        · rw [List.append_assoc] at hearlier hsame
          exact Or.inr ⟨file :: earlier, last, later, by rw [hsplit]; rfl, hearlier, hsame, herr⟩

end Registry

namespace GeneratedFile

theorem mk_enum (directory : String) (definition : EnumDefinition) :
    (⟨Path.join ⟨directory⟩ ⟨definition.name ++ ".ts"⟩, (enum directory definition).content⟩ :
      OutputFile) = enum directory definition := rfl

theorem mk_entity (enumDir : String) (model : Model) :
    (⟨Path.join ⟨"entities"⟩ ⟨model.name ++ ".ts"⟩, (entity enumDir model).content⟩ :
      OutputFile) = entity enumDir model := rfl

theorem mk_barrel (directory : String) (names : List String) :
    (⟨Path.join ⟨directory⟩ ⟨"index.ts"⟩, (barrel directory names).content⟩ : OutputFile) =
      barrel directory names := rfl

theorem mk_helpers :
    (⟨Path.join ⟨"helpers"⟩ ⟨"index.ts"⟩, helpers.content⟩ : OutputFile) = helpers := by
  have hpath : Path.join ⟨"helpers"⟩ ⟨"index.ts"⟩ = helpers.path := by
    rw [helpers, inDirectory]
  rw [hpath]

end GeneratedFile

namespace Generator

/-- The files of a generation in the order in which they are registered, each under its path and with
the text that belongs to it. -/
def plan (generator : Generator) : List OutputFile :=
  let { datamodel, options } := generator
  datamodel.enums.map (fun definition =>
    ⟨Path.join ⟨options.enumDir⟩ ⟨definition.name ++ ".ts"⟩,
      (GeneratedFile.enum options.enumDir definition).content⟩) ++
  (if datamodel.enums.isEmpty then []
    else [⟨Path.join ⟨options.enumDir⟩ ⟨"index.ts"⟩,
      (GeneratedFile.barrel options.enumDir (datamodel.enums.map (·.name))).content⟩]) ++
  datamodel.models.map (fun model =>
    ⟨Path.join ⟨"entities"⟩ ⟨model.name ++ ".ts"⟩,
      (GeneratedFile.entity options.enumDir model).content⟩) ++
  [⟨Path.join ⟨"helpers"⟩ ⟨"index.ts"⟩, GeneratedFile.helpers.content⟩,
    ⟨Path.join ⟨options.modelDir⟩ ⟨"index.ts"⟩,
      (GeneratedFile.barrel options.modelDir (datamodel.models.map (·.name))).content⟩]

def plannedPaths (generator : Generator) : List Path :=
  generator.plan.map (·.path)

/-- Every planned path ends in the name of a source file. -/
theorem exists_join_of_mem_plannedPaths {generator : Generator} {path : Path}
    (hpath : path ∈ generator.plannedPaths) :
    ∃ directory name, path = Path.join ⟨directory⟩ ⟨name ++ ".ts"⟩ := by
  have hindex : "index.ts" = "index" ++ ".ts" := by decide
  simp only [plannedPaths, plan, hindex, List.map_append, List.map_map, List.mem_append,
    List.mem_map] at hpath
  obtain ((⟨definition, -, rfl⟩ | ⟨file, hfile, rfl⟩) | ⟨model, -, rfl⟩) | ⟨file, hfile, rfl⟩ := hpath
  · exact ⟨_, _, rfl⟩
  · split_ifs at hfile
    · cases hfile
    · rw [List.mem_singleton.mp hfile]
      exact ⟨generator.options.enumDir, "index", rfl⟩
  · exact ⟨_, _, rfl⟩
  · simp only [List.mem_cons, List.not_mem_nil, or_false] at hfile
    rcases hfile with rfl | rfl
    · exact ⟨"helpers", "index", rfl⟩
    · exact ⟨generator.options.modelDir, "index", rfl⟩

/-- The phases between clearing the output directory and writing the files. -/
def emissions (generator : Generator) : List Phase :=
  generator.phases.filter (!·.changesStorage)

theorem phases_eq (generator : Generator) :
    generator.phases = .clearOutput :: generator.emissions ++ [.flush] := by
  obtain ⟨⟨enums, models⟩, options⟩ := generator
  cases enums <;> rfl

theorem emissions_eq (generator : Generator) :
    generator.emissions =
      .emitEnums :: (if generator.datamodel.enums.isEmpty then [] else [.emitEnumIndex]) ++
        [.emitEntities, .emitHelpersIndex, .emitModelIndex] := by
  obtain ⟨⟨enums, models⟩, options⟩ := generator
  cases enums <;> rfl

theorem plan_eq_flatMap_emissions (generator : Generator) :
    generator.plan =
      generator.emissions.flatMap (Phase.files generator.datamodel generator.options) := by
  rw [emissions_eq]
  by_cases henums : generator.datamodel.enums.isEmpty <;>
    simp [plan, henums, Phase.files, GeneratedFile.mk_enum, GeneratedFile.mk_entity,
      GeneratedFile.mk_barrel, GeneratedFile.mk_helpers]

theorem foldlM_emit (generator : Generator) (phases : List Phase) (registry : Registry) :
    phases.foldlM generator.emit registry =
      (phases.flatMap (Phase.files generator.datamodel generator.options)).foldlM
        Registry.register registry := by
  induction phases generalizing registry with
  | nil => rfl
  | cons phase phases ih =>
      rw [List.foldlM_cons, List.flatMap_cons, List.foldlM_append]
      exact bind_congr ih

theorem render_eq_registerAll (generator : Generator) :
    generator.render = generator.plan.foldlM Registry.register Registry.empty := by
  rw [plan_eq_flatMap_emissions, ← foldlM_emit]
  rfl

/-- Rendering in the terms of its plan. -/
theorem render_cases (generator : Generator) :
    (Registry.PathsDiffer generator.plan ∧ generator.render = .ok ⟨generator.plan⟩) ∨
    ∃ earlier file later, generator.plan = earlier ++ file :: later ∧
      Registry.PathsDiffer earlier ∧ (∃ other ∈ earlier, other.path.Same file.path) ∧
      generator.render = .error (.repeatedPath file.path) := by
  rw [render_eq_registerAll]
  simpa [Registry.empty] using Registry.registerAll_cases generator.plan [] List.Pairwise.nil

theorem plan_of_render {generator : Generator} {registry : Registry}
    (hrender : generator.render = .ok registry) :
    registry = ⟨generator.plan⟩ ∧ Registry.PathsDiffer generator.plan := by
  rcases generator.render_cases with ⟨hdiffer, hok⟩ | ⟨_, _, _, -, -, -, herr⟩
  · rw [hrender] at hok
    exact ⟨Except.ok.inj hok, hdiffer⟩
  · rw [hrender] at herr
    cases herr

theorem exists_render_iff (generator : Generator) :
    (∃ registry, generator.render = .ok registry) ↔ Registry.PathsDiffer generator.plan := by
  rcases generator.render_cases with
    ⟨hdiffer, hok⟩ | ⟨earlier, file, later, hsplit, -, ⟨other, hmem, hsame⟩, herr⟩
  · exact ⟨fun _ => hdiffer, fun _ => ⟨_, hok⟩⟩
  · constructor
    · rintro ⟨registry, hok⟩
      rw [herr] at hok
      cases hok
    · intro hdiffer
      rw [hsplit, Registry.PathsDiffer, List.pairwise_append] at hdiffer
      exact absurd hsame (hdiffer.2.2 other hmem file List.mem_cons_self)

theorem exists_failure_iff (generator : Generator) :
    (∃ failure, generator.render = .error failure) ↔ ¬ Registry.PathsDiffer generator.plan := by
  rw [← exists_render_iff]
  rcases generator.render with failure | registry
  · exact ⟨fun _ => by simp, fun _ => ⟨failure, rfl⟩⟩
  · exact ⟨by simp, fun hnone => absurd ⟨registry, rfl⟩ hnone⟩

theorem repeatedPath_of_render {generator : Generator} {failure : Failure}
    (hrender : generator.render = .error failure) : ∃ path, failure = .repeatedPath path := by
  rcases generator.render_cases with ⟨-, hok⟩ | ⟨_, file, _, -, -, -, herr⟩
  · rw [hrender] at hok
    cases hok
  · rw [hrender] at herr
    exact ⟨file.path, Except.error.inj herr⟩

theorem pathsDiffer_plan_iff (generator : Generator) :
    Registry.PathsDiffer generator.plan ↔
      generator.plannedPaths.Pairwise fun path other => ¬ path.Same other := by
  rw [plannedPaths, List.pairwise_map, Registry.PathsDiffer]

/-- **Rendering registers the plan, or fails at its first repeated path.** -/
theorem render_iff_plannedPaths_differ (generator : Generator) :
    ((∃ registry, generator.render = .ok registry) ↔
      generator.plannedPaths.Pairwise fun path other => ¬ path.Same other) ∧
    (∀ registry, generator.render = .ok registry → registry.entries = generator.plan) ∧
    (∀ failure, generator.render = .error failure →
      ∃ earlier path later, generator.plannedPaths = earlier ++ path :: later ∧
        (earlier.Pairwise fun path other => ¬ path.Same other) ∧
        (∃ other ∈ earlier, other.Same path) ∧ failure = .repeatedPath path) := by
  rcases generator.render_cases with
    ⟨hdiffer, hok⟩ | ⟨earlier, file, later, hsplit, hearlier, hsame, herr⟩
  · refine ⟨⟨fun _ => generator.pathsDiffer_plan_iff.mp hdiffer, fun _ => ⟨_, hok⟩⟩, ?_, ?_⟩
    · rintro registry hregistry
      rw [hok] at hregistry
      cases hregistry
      rfl
    · rintro failure hfailure
      rw [hok] at hfailure
      cases hfailure
  · have hpaths : generator.plannedPaths =
        earlier.map (·.path) ++ file.path :: later.map (·.path) := by
      rw [plannedPaths, hsplit, List.map_append, List.map_cons]
    obtain ⟨other, hmem, hother⟩ := hsame
    refine ⟨⟨?_, ?_⟩, ?_, ?_⟩
    · rintro ⟨registry, hregistry⟩
      rw [herr] at hregistry
      cases hregistry
    · intro hdiffer
      rw [hpaths, List.pairwise_append] at hdiffer
      exact absurd hother (hdiffer.2.2 other.path (List.mem_map_of_mem hmem) file.path (by simp))
    · rintro registry hregistry
      rw [herr] at hregistry
      cases hregistry
    · rintro failure hfailure
      rw [herr] at hfailure
      cases hfailure
      exact ⟨_, _, _, hpaths, List.pairwise_map.mpr hearlier,
        ⟨other.path, List.mem_map_of_mem hmem, hother⟩, rfl⟩

end Generator

end EntityClasses
