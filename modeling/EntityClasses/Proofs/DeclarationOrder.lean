import Mathlib.Data.List.Perm.Basic
import EntityClasses.Proofs.Siblings
import EntityClasses.Proofs.Text.ByteOrder

/-! Reordering the declarations of a datamodel. Every file is made from its own declaration, and the barrels
sort what they export, so the plan of a reordered datamodel holds the same files in another order. Whether
its paths are pairwise different does not depend on that order, and so neither does what rendering
produces. -/

namespace EntityClasses

namespace Datamodel

/-- The same enums and the same models, each in some order. -/
structure Reorders (datamodel other : Datamodel) : Prop where
  enums : other.enums.Perm datamodel.enums
  models : other.models.Perm datamodel.models

/-- The declarations from the last to the first. -/
def reversed (datamodel : Datamodel) : Datamodel :=
  ⟨datamodel.enums.reverse, datamodel.models.reverse⟩

theorem reorders_reversed (datamodel : Datamodel) : datamodel.Reorders datamodel.reversed :=
  ⟨List.reverse_perm _, List.reverse_perm _⟩

end Datamodel

namespace Registry

theorem PathsDiffer.perm {files others : List OutputFile} (hdiffer : PathsDiffer files)
    (hperm : files.Perm others) : PathsDiffer others := by
  have hsymm : ∀ {file other : OutputFile}, ¬ file.path.Same other.path → ¬ other.path.Same file.path :=
    fun hnot hsame => hnot hsame.symm
  exact (hperm.pairwise_iff hsymm).mp hdiffer

end Registry

namespace GeneratedFile

theorem barrel_eq_of_perm (directory : String) {names others : List String} (hperm : names.Perm others) :
    barrel directory names = barrel directory others := by
  rw [barrel, barrel, sorted_eq_of_perm hperm]

/-- A text exports these names, one in each line, by ascending UTF-8 bytes. -/
def ExportsAscending (content : String) (names : List String) : Prop :=
  ∃ listed : List String, listed.Perm names ∧
    (listed.Pairwise fun name next => Text.bytes name ≤ Text.bytes next) ∧
    content = Text.unlines (listed.map exportLine)

theorem barrel_exportsAscending (directory : String) (names : List String) :
    ExportsAscending (barrel directory names).content names := by
  refine ⟨sorted names, sorted_perm names, ?_, barrel_content directory names⟩
  exact (pairwise_sorted names).imp fun hle => (Text.bytes_le_bytes_iff _ _).mpr hle

end GeneratedFile

namespace Generator

open GeneratedFile

variable {datamodel other : Datamodel}

theorem files_perm (horder : datamodel.Reorders other) (options : Options) (phase : Phase) :
    (phase.files other options).Perm (phase.files datamodel options) := by
  have henumBarrel := barrel_eq_of_perm options.enumDir (horder.enums.map (·.name))
  have hmodelBarrel := barrel_eq_of_perm options.modelDir (horder.models.map (·.name))
  cases phase with
  | emitEnums => exact horder.enums.map _
  | emitEntities => exact horder.models.map _
  | emitEnumIndex => rw [Phase.files, Phase.files, henumBarrel]
  | emitModelIndex => rw [Phase.files, Phase.files, hmodelBarrel]
  | _ => exact .refl _

theorem plan_perm (horder : datamodel.Reorders other) (options : Options) :
    (Generator.mk other options).plan.Perm (Generator.mk datamodel options).plan := by
  have hemissions : (Generator.mk other options).emissions = (Generator.mk datamodel options).emissions := by
    rw [emissions_eq, emissions_eq, horder.enums.isEmpty_eq]
  rw [plan_eq_flatMap_emissions, plan_eq_flatMap_emissions, hemissions]
  exact List.Perm.flatMap_left _ fun phase _ => files_perm horder options phase

/-- **The order of the declarations does not matter.** -/
theorem render_of_reordered (horder : datamodel.Reorders other) (options : Options) :
    ((∃ registry, (Generator.mk other options).render = .ok registry) ↔
      ∃ registry, (Generator.mk datamodel options).render = .ok registry) ∧
    ∀ registry reordered, (Generator.mk datamodel options).render = .ok registry →
      (Generator.mk other options).render = .ok reordered →
      reordered.entries.Perm registry.entries ∧
      ∀ directory names, (directory, names) ∈ (Generator.mk datamodel options).barrels →
        barrel directory names ∈ registry.entries ∧
        ExportsAscending (barrel directory names).content names := by
  have hperm := plan_perm horder options
  refine ⟨?_, ?_⟩
  · rw [exists_render_iff, exists_render_iff]
    exact ⟨fun hdiffer => hdiffer.perm hperm, fun hdiffer => hdiffer.perm hperm.symm⟩
  · intro registry reordered hrender hreordered
    obtain ⟨rfl, -⟩ := plan_of_render hrender
    obtain ⟨rfl, -⟩ := plan_of_render hreordered
    refine ⟨hperm, fun directory names hbarrel => ⟨?_, ?_⟩⟩
    · exact (Generator.mk datamodel options).barrel_mem_plan hbarrel
    · exact barrel_exportsAscending directory names

/-- Two enums and two models. The second model comes first by UTF-8 bytes, but not by UTF-16 units. -/
def rolesAndLetters : Datamodel where
  enums := [⟨"Role", ["ADMIN"]⟩, ⟨"Kind", []⟩]
  models := [⟨"𝒜", [⟨"role", .enum "Role", true, false⟩]⟩,
    ⟨"ｚ", [⟨"next", .relation "𝒜", false, false⟩]⟩]

theorem render_rolesAndLetters_reversed : ∃ registry reordered,
    (Generator.mk rolesAndLetters (.new ⟨"gen"⟩)).render = .ok registry ∧
    (Generator.mk rolesAndLetters.reversed (.new ⟨"gen"⟩)).render = .ok reordered ∧
    reordered.entries.Perm registry.entries ∧
    barrel "models" ["𝒜", "ｚ"] ∈ registry.entries ∧
    ExportsAscending (barrel "models" ["𝒜", "ｚ"]).content ["𝒜", "ｚ"] := by
  have hdiffer : Registry.PathsDiffer (Generator.mk rolesAndLetters (.new ⟨"gen"⟩)).plan := by
    unfold Registry.PathsDiffer
    decide
  obtain ⟨hsucceeds, hsame⟩ :=
    render_of_reordered rolesAndLetters.reorders_reversed (.new ⟨"gen"⟩)
  obtain ⟨registry, hrender⟩ := (exists_render_iff _).mpr hdiffer
  obtain ⟨reordered, hreordered⟩ := hsucceeds.mpr ⟨registry, hrender⟩
  obtain ⟨hperm, hbarrels⟩ := hsame registry reordered hrender hreordered
  have hmodels : ("models", ["𝒜", "ｚ"]) ∈
      (Generator.mk rolesAndLetters (.new ⟨"gen"⟩)).barrels := by decide
  exact ⟨registry, reordered, hrender, hreordered, hperm, hbarrels _ _ hmodels⟩

end Generator

end EntityClasses
