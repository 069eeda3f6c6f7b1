import EntityClasses.Generation
import EntityClasses.Proofs.Run

/-! A dry run against the run it stands for. Both render the same plan; the run in earnest clears the
output directory before it renders and writes after it, so a collision stops it with nothing written. -/

namespace EntityClasses

variable (datamodel : Datamodel) (options : Options) (tree : FileTree)

/-- A generation as it is asked for, on a file tree: the answer and the tree it leaves. -/
def generateOn (dryRun : Bool) : Except GenerationError GenerationReport × FileTree :=
  (generate datamodel options dryRun : StateM FileTree _).run tree

theorem generateOn_dryRun :
    generateOn datamodel options tree true =
      (match (Generator.mk datamodel options).preview with
        | .ok files => .ok ⟨datamodel.models.length, datamodel.enums.length, .preview files⟩
        | .error cause => .error ⟨true, cause⟩, tree) := by
  simp only [generateOn, generate]
  rcases (Generator.mk datamodel options).preview with cause | files <;> rfl

theorem generateOn_inEarnest :
    generateOn datamodel options tree false =
      match tree.perform (Generator.mk datamodel options).run with
      | (.ok progress, final) =>
        (.ok ⟨datamodel.models.length, datamodel.enums.length,
          .written options.outputDir progress.written⟩, final)
      | (.error cause, final) => (.error ⟨false, cause⟩, final) := by
  have hgenerate : (GenerationResult.written options.outputDir <$>
      (Generator.mk datamodel options).generate : ExceptT Failure (StateM FileTree) _) = (do
        let progress ← (Generator.mk datamodel options).run
        pure (.written options.outputDir progress.written)) := by
    simp [Generator.generate]
  have hperform : tree.perform (GenerationResult.written options.outputDir <$>
      (Generator.mk datamodel options).generate) =
        match tree.perform (Generator.mk datamodel options).run with
        | (.ok progress, final) => (.ok (.written options.outputDir progress.written), final)
        | (.error cause, final) => (.error cause, final) := by
    rw [hgenerate, FileTree.perform_bind]
    rcases tree.perform (Generator.mk datamodel options).run with ⟨cause | progress, final⟩ <;> rfl
  have houter : generateOn datamodel options tree false =
      match tree.perform (GenerationResult.written options.outputDir <$>
        (Generator.mk datamodel options).generate) with
      | (.ok result, final) => (.ok ⟨datamodel.models.length, datamodel.enums.length, result⟩, final)
      | (.error cause, final) => (.error ⟨false, cause⟩, final) := by
    simp only [generateOn, generate, FileTree.perform, Bool.false_eq_true, if_false,
      StateT.run_bind]
    rcases (GenerationResult.written options.outputDir <$>
      (Generator.mk datamodel options).generate :
        ExceptT Failure (StateM FileTree) _).run.run tree with ⟨cause | result, final⟩ <;> rfl
  rw [houter, hperform]
  rcases tree.perform (Generator.mk datamodel options).run with ⟨cause | progress, final⟩ <;> rfl

theorem preview_ok_iff (generator : Generator) (files : List (String × String)) :
    generator.preview = .ok files ↔
      ∃ registry, generator.render = .ok registry ∧ files = registry.preview := by
  rw [Generator.preview]
  rcases generator.render with failure | registry
  · simp [Except.map]
  · simp [Except.map, eq_comm]

theorem preview_error_iff (generator : Generator) (failure : Failure) :
    generator.preview = .error failure ↔ generator.render = .error failure := by
  rw [Generator.preview]
  rcases generator.render with failure | registry <;> simp [Except.map]

/-- **A dry run predicts the run in earnest.** It leaves the tree alone. Where it fails, the run in
earnest stops with what clearing the output directory left, and with the same collision unless clearing
had failed already. Where the run in earnest succeeds, it has written what the dry run shows. -/
theorem dryRun_predicts_run :
    (generateOn datamodel options tree true).2 = tree ∧
    (∀ error, (generateOn datamodel options tree true).1 = .error error →
      ∃ path inEarnest, error.cause = .repeatedPath path ∧
        generateOn datamodel options tree false =
          (.error inEarnest, (tree.perform (clearDirectory options.outputDir)).2) ∧
        match (tree.perform (clearDirectory options.outputDir)).1 with
        | .ok () => inEarnest.cause = error.cause
        | .error failure => inEarnest.cause = failure) ∧
    (∀ report, (generateOn datamodel options tree false).1 = .ok report →
      ∃ files paths, (generateOn datamodel options tree true).1 =
          .ok ⟨report.modelCount, report.enumCount, .preview files⟩ ∧
        report.result = .written options.outputDir paths ∧ paths = files.map (·.1)) := by
  rw [generateOn_dryRun, generateOn_inEarnest]
  refine ⟨rfl, ?_, ?_⟩
  · intro error herror
    rcases hpreview : (Generator.mk datamodel options).preview with failure | files
    · rw [hpreview] at herror
      cases herror
      have hrender := (preview_error_iff _ _).mp hpreview
      obtain ⟨path, hpath⟩ := Generator.repeatedPath_of_render hrender
      rw [Generator.perform_run_of_render_error hrender]
      rcases tree.perform (clearDirectory options.outputDir) with ⟨cause | _, cleared⟩
      · exact ⟨path, _, hpath, rfl, rfl⟩
      · exact ⟨path, _, hpath, rfl, rfl⟩
    · rw [hpreview] at herror
      cases herror
  · intro report hreport
    rcases hrun : tree.perform (Generator.mk datamodel options).run with ⟨failure | progress, final⟩
    · rw [hrun] at hreport
      cases hreport
    · rw [hrun] at hreport
      cases hreport
      obtain ⟨cleared, -, hrender, hwritten, -⟩ := Generator.writes_of_run hrun
      have hpreview := (preview_ok_iff _ _).mpr ⟨progress.registry, hrender, rfl⟩
      refine ⟨progress.registry.preview, progress.written, by rw [hpreview], rfl, ?_⟩
      rw [hwritten, Registry.preview, List.map_map]
      rfl

end EntityClasses
