import EntityClasses.Proofs.Datamodel.Loading
import EntityClasses.Proofs.Places

/-! When a generation fails to render. Its files come in five groups: the enums, the barrel of the enums,
the models, the helpers and the barrel of the models. The files of a group stand in one directory and are
called after different names, so two files have one path only across two groups, where the directories
have the same components and a name stands in both. Going through the pairs of groups leaves seven ways in
which that can happen. -/

namespace EntityClasses

/-- A way in which two files of a generation have one path. -/
inductive Collision (datamodel : Datamodel) (options : Options) : Prop
  /-- The file of an enum and the barrel of the enums. -/
  | enumCalledIndex : "index" ∈ datamodel.enums.map (·.name) → Collision datamodel options
  /-- The files of an enum and of a model. -/
  | enumAndModel (name : String) : (⟨options.enumDir⟩ : Path).components = ["entities"] →
      name ∈ datamodel.enums.map (·.name) → name ∈ datamodel.models.map (·.name) →
      Collision datamodel options
  /-- The barrel of the enums and the file of a model. -/
  | enumBarrelAndModel : (⟨options.enumDir⟩ : Path).components = ["entities"] →
      datamodel.enums ≠ [] → "index" ∈ datamodel.models.map (·.name) → Collision datamodel options
  | enumBarrelAndHelpers : (⟨options.enumDir⟩ : Path).components = ["helpers"] →
      datamodel.enums ≠ [] → Collision datamodel options
  | modelBarrelAndHelpers : (⟨options.modelDir⟩ : Path).components = ["helpers"] →
      Collision datamodel options
  /-- The barrel of the models and the file of a model. -/
  | modelBarrelAndModel : (⟨options.modelDir⟩ : Path).components = ["entities"] →
      "index" ∈ datamodel.models.map (·.name) → Collision datamodel options
  | bothBarrels : (⟨options.modelDir⟩ : Path).components = (⟨options.enumDir⟩ : Path).components →
      datamodel.enums ≠ [] → Collision datamodel options

namespace Generator

/-- Two groups of files, each a directory and the names in it, that have a path in common. -/
def Overlap (group other : String × List String) : Prop :=
  (⟨group.1⟩ : Path).Same ⟨other.1⟩ ∧ ∃ name ∈ group.2, name ∈ other.2

variable (generator : Generator)

/-- The names in the directory of the enums that are called after no enum. -/
def enumBarrelNames : List String :=
  if generator.datamodel.enums.isEmpty then [] else ["index"]

/-- The files of a generation by what they are, each group as its directory and the names in it. -/
def groups : List (String × List String) :=
  [(generator.options.enumDir, generator.datamodel.enums.map (·.name)),
    (generator.options.enumDir, generator.enumBarrelNames),
    ("entities", generator.datamodel.models.map (·.name)),
    ("helpers", ["index"]), (generator.options.modelDir, ["index"])]

theorem mem_enumBarrelNames_iff (name : String) :
    name ∈ generator.enumBarrelNames ↔ generator.datamodel.enums ≠ [] ∧ name = "index" := by
  rw [enumBarrelNames]
  by_cases henums : generator.datamodel.enums = [] <;> simp [henums]

theorem places_eq_groups :
    generator.places = generator.groups.flatMap fun group => group.2.map (group.1, ·) := by
  rw [places, groups, enumBarrelNames]
  split_ifs <;> simp [Function.comp_def]

variable {generator}

theorem nodup_of_mem_groups (hdistinct : generator.datamodel.Distinct) {group : String × List String}
    (hgroup : group ∈ generator.groups) : group.2.Nodup := by
  have hbarrel : generator.enumBarrelNames.Nodup := by
    rw [enumBarrelNames]
    split_ifs <;> decide
  simp only [groups, List.mem_cons, List.not_mem_nil, or_false] at hgroup
  rcases hgroup with rfl | rfl | rfl | rfl | rfl
  · exact hdistinct.enums
  · exact hbarrel
  · exact hdistinct.models
  · exact List.pairwise_singleton _ _
  · exact List.pairwise_singleton _ _

theorem places_apart_iff (group other : String × List String) :
    (∀ place ∈ group.2.map (group.1, ·), ∀ next ∈ other.2.map (other.1, ·),
      ¬ ((⟨place.1⟩ : Path).Same ⟨next.1⟩ ∧ place.2 = next.2)) ↔ ¬ Overlap group other := by
  simp only [List.forall_mem_map, Overlap]
  constructor
  · rintro happart ⟨hsame, name, hname, hother⟩
    exact happart name hname name hother ⟨hsame, rfl⟩
  · rintro hnone name hname next hnext ⟨hsame, rfl⟩
    exact hnone ⟨hsame, name, hname, hnext⟩

/-- Within a group nothing collides, so only the groups have to be compared. -/
theorem pathsDiffer_iff_not_overlap (hdistinct : generator.datamodel.Distinct)
    (hslash : ∀ name ∈ generator.datamodel.names, '/' ∉ name.toList) :
    Registry.PathsDiffer generator.plan ↔
      generator.groups.Pairwise fun group other => ¬ Overlap group other := by
  rw [pathsDiffer_iff_places_differ hslash, places_eq_groups, List.pairwise_flatMap,
    List.Pairwise.iff places_apart_iff]
  apply and_iff_right
  intro group hgroup
  rw [List.pairwise_map]
  exact (nodup_of_mem_groups hdistinct hgroup).imp fun hne hsame => hne hsame.2

variable (generator)

theorem pairwise_not_overlap_iff :
    (generator.groups.Pairwise fun group other => ¬ Overlap group other) ↔
      ¬ Collision generator.datamodel generator.options := by
  have hentities : (⟨"entities"⟩ : Path).components = ["entities"] := by decide
  have hhelpers : (⟨"helpers"⟩ : Path).components = ["helpers"] := by decide
  simp only [groups, List.pairwise_cons, List.forall_mem_cons, List.not_mem_nil, false_implies,
    implies_true, and_true, List.Pairwise.nil, Overlap, Path.Same, hentities, hhelpers,
    mem_enumBarrelNames_iff, List.mem_singleton, forall_eq, true_and]
  constructor
  · rintro ⟨⟨henumBarrel, henumModel, -, -⟩, ⟨hbarrelModel, hbarrelHelpers, hbarrels⟩,
      ⟨-, hmodelBarrel⟩, hhelpersBarrel⟩ hcollision
    cases hcollision with
    | enumCalledIndex henum =>
        have henums : generator.datamodel.enums ≠ [] := by
          intro hempty
          simp [hempty] at henum
        exact henumBarrel ⟨"index", henum, henums, rfl⟩
    | enumAndModel name hdirectory henum hmodel => exact henumModel ⟨hdirectory, name, henum, hmodel⟩
    | enumBarrelAndModel hdirectory henums hmodel =>
        exact hbarrelModel ⟨hdirectory, "index", ⟨henums, rfl⟩, hmodel⟩
    | enumBarrelAndHelpers hdirectory henums =>
        exact hbarrelHelpers ⟨hdirectory, "index", ⟨henums, rfl⟩, rfl⟩
    | modelBarrelAndHelpers hdirectory => exact hhelpersBarrel ⟨hdirectory.symm, "index", rfl, rfl⟩
    | modelBarrelAndModel hdirectory hmodel =>
        exact hmodelBarrel ⟨hdirectory.symm, "index", hmodel, rfl⟩
    | bothBarrels hdirectory henums =>
        exact hbarrels ⟨hdirectory.symm, "index", ⟨henums, rfl⟩, rfl⟩
  · intro hnone
    -- An enum that collides with the helpers or with a barrel is called `index`.
    refine ⟨⟨?_, ?_, ?_, ?_⟩, ⟨?_, ?_, ?_⟩, ⟨?_, ?_⟩, ?_⟩
    · rintro ⟨name, henum, -, rfl⟩
      exact hnone (.enumCalledIndex henum)
    · rintro ⟨hdirectory, name, henum, hmodel⟩
      exact hnone (.enumAndModel name hdirectory henum hmodel)
    · rintro ⟨-, name, henum, rfl⟩
      exact hnone (.enumCalledIndex henum)
    · rintro ⟨-, name, henum, rfl⟩
      exact hnone (.enumCalledIndex henum)
    · rintro ⟨hdirectory, name, ⟨henums, rfl⟩, hmodel⟩
      exact hnone (.enumBarrelAndModel hdirectory henums hmodel)
    · rintro ⟨hdirectory, name, ⟨henums, -⟩, -⟩
      exact hnone (.enumBarrelAndHelpers hdirectory henums)
    · rintro ⟨hdirectory, name, ⟨henums, -⟩, -⟩
      exact hnone (.bothBarrels hdirectory.symm henums)
    · rintro ⟨hdirectory, -⟩
      exact absurd hdirectory (by decide)
    · rintro ⟨hdirectory, name, hmodel, rfl⟩
      exact hnone (.modelBarrelAndModel hdirectory.symm hmodel)
    · rintro ⟨hdirectory, -⟩
      exact hnone (.modelBarrelAndHelpers hdirectory.symm)

theorem collision_new_iff (datamodel : Datamodel) (outputDir : Path) :
    Collision datamodel (Options.new outputDir) ↔ "index" ∈ datamodel.enums.map (·.name) := by
  have henumDir : (⟨(Options.new outputDir).enumDir⟩ : Path).components = ["enums"] :=
    show (⟨"enums"⟩ : Path).components = ["enums"] by decide
  have hmodelDir : (⟨(Options.new outputDir).modelDir⟩ : Path).components = ["models"] :=
    show (⟨"models"⟩ : Path).components = ["models"] by decide
  refine ⟨fun hcollision => ?_, .enumCalledIndex⟩
  cases hcollision with
  | enumCalledIndex henum => exact henum
  | enumAndModel name hdirectory | enumBarrelAndModel hdirectory | enumBarrelAndHelpers hdirectory =>
      rw [henumDir] at hdirectory
      exact absurd hdirectory (by decide)
  | modelBarrelAndHelpers hdirectory | modelBarrelAndModel hdirectory =>
      rw [hmodelDir] at hdirectory
      exact absurd hdirectory (by decide)
  | bothBarrels hdirectory =>
      rw [henumDir, hmodelDir] at hdirectory
      exact absurd hdirectory (by decide)

/-- **A generation of a valid datamodel fails to render exactly at a collision.** -/
theorem render_fails_iff_collision {source : SourceText} {datamodel : Datamodel}
    (hvalid : datamodel.validate source = .ok datamodel)
    (hslash : ∀ name ∈ datamodel.names, '/' ∉ name.toList) :
    (∀ options, (∃ failure, (Generator.mk datamodel options).render = .error failure) ↔
      Collision datamodel options) ∧
    ∀ outputDir, (∃ failure, (Generator.mk datamodel (Options.new outputDir)).render = .error failure) ↔
      "index" ∈ datamodel.enums.map (·.name) := by
  have hdistinct := Datamodel.distinct_of_validate hvalid
  have hfails : ∀ options, (∃ failure, (Generator.mk datamodel options).render = .error failure) ↔
      Collision datamodel options := by
    intro options
    rw [exists_failure_iff, pathsDiffer_iff_not_overlap hdistinct hslash, pairwise_not_overlap_iff,
      not_not]
  exact ⟨hfails, fun outputDir => (hfails _).trans (collision_new_iff datamodel outputDir)⟩

/-- An enum and a model of one name. -/
def roleTwice : Datamodel :=
  ⟨[⟨"Role", ["USER", "ADMIN"]⟩], [⟨"Role", [⟨"kind", .enum "Role", true, false⟩]⟩]⟩

theorem render_fails_roleTwice :
    (∃ failure, (Generator.mk roleTwice ⟨⟨"gen"⟩, "entities/./", "models"⟩).render = .error failure) ∧
    ¬ ∃ failure, (Generator.mk roleTwice (Options.new ⟨"gen"⟩)).render = .error failure := by
  have hvalid : roleTwice.validate ⟨"dmmf.json", ""⟩ = .ok roleTwice :=
    Datamodel.validate_of_distinct _ ⟨by decide, by decide⟩
  obtain ⟨hfails, hdefault⟩ := render_fails_iff_collision hvalid (by decide)
  refine ⟨(hfails _).mpr ?_, (hdefault _).not.mpr (by decide)⟩
  exact .enumAndModel "Role" (by decide) (by decide) (by decide)

end Generator

end EntityClasses
