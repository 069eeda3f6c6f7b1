import EntityClasses.Proofs.Perform
import EntityClasses.Proofs.Registration

/-! What a generation does to a file tree: it clears the output directory, renders, and writes the
rendered files one after the other. The phases of a run come together in one equation, and a run of
writes is a chain of single writes, so that what one write preserves can be carried along the chain. -/

namespace EntityClasses

/-- Writing these files below a directory, one after the other and each with success, leads from one
tree to another. -/
inductive Writes (base : Path) : List OutputFile → FileTree → FileTree → Prop where
  | start (tree : FileTree) : Writes base [] tree tree
  | next {files : List OutputFile} {file : OutputFile} {tree before after : FileTree} :
      Writes base files tree before → before.perform (file.write base) = (.ok (), after) →
      Writes base (files ++ [file]) tree after

namespace Registry

/-- A run of writes is a chain of single ones, up to the first that fails. -/
theorem writeAll_cases (base : Path) (files done : List OutputFile) (start tree : FileTree)
    (hdone : Writes base done start tree) :
    (∃ final, tree.perform (writeAll ⟨files⟩ base) = (.ok (files.map (·.path.display)), final) ∧
      Writes base (done ++ files) start final) ∨
    ∃ earlier file later failure before after, files = earlier ++ file :: later ∧
      Writes base (done ++ earlier) start before ∧
      before.perform (file.write base) = (.error failure, after) ∧
      tree.perform (writeAll ⟨files⟩ base) = (.error failure, after) := by
  induction files generalizing done tree with
  | nil => exact Or.inl ⟨tree, rfl, by rwa [List.append_nil]⟩
  | cons file files ih =>
      have hcons : writeAll (m := StateM FileTree) ⟨file :: files⟩ base = (do
          file.write base
          let written ← writeAll ⟨files⟩ base
          pure (file.path.display :: written)) := by
        simp [writeAll]
      rw [hcons]
      rcases hwrite : tree.perform (file.write base) with ⟨failure | _, next⟩
      · rw [FileTree.perform_bind_error _ hwrite]
        exact Or.inr ⟨[], file, files, failure, tree, next, rfl, by rwa [List.append_nil],
          hwrite, rfl⟩
      · rw [FileTree.perform_bind_ok _ hwrite]
        rcases ih (done ++ [file]) next (hdone.next hwrite) with
          ⟨final, hall, hchain⟩ | ⟨earlier, last, later, failure, before, after, hsplit, hchain,
            hlast, hall⟩
        · rw [FileTree.perform_bind_ok _ hall]
          exact Or.inl ⟨final, rfl, by rwa [List.append_assoc] at hchain⟩
        · rw [FileTree.perform_bind_error _ hall, hsplit]
          exact Or.inr ⟨file :: earlier, last, later, failure, before, after, rfl,
            by rwa [List.append_assoc] at hchain, hlast, rfl⟩

end Registry

namespace Generator

variable (generator : Generator)

theorem runPhase_emission (progress : Progress) (phase : Phase)
    (hphase : phase.changesStorage = false) :
    generator.runPhase (m := StateM FileTree) progress phase = (do
      let registry ← liftM (generator.emit progress.registry phase)
      pure { progress with registry }) := by
  cases phase <;> first | rfl | cases hphase

/-- Phases that only add files leave the tree alone, and add what rendering would. -/
theorem perform_emissions (tree : FileTree) (phases : List Phase) (progress : Progress)
    (hphases : ∀ phase ∈ phases, phase.changesStorage = false) :
    tree.perform (phases.foldlM generator.runPhase progress) =
      ((phases.foldlM generator.emit progress.registry).map fun registry =>
        { progress with registry }, tree) := by
  induction phases generalizing progress with
  | nil => rfl
  | cons phase phases ih =>
      rw [List.foldlM_cons, List.foldlM_cons,
        runPhase_emission generator progress phase (hphases phase List.mem_cons_self)]
      rcases hemit : generator.emit progress.registry phase with failure | registry
      · rfl
      · exact ih { progress with registry } fun phase hmem =>
          hphases phase (List.mem_cons_of_mem _ hmem)

theorem emissions_changesStorage : ∀ phase ∈ generator.emissions, phase.changesStorage = false := by
  intro phase hmem
  simpa using (List.mem_filter.mp hmem).2

/-- A run clears the output directory, renders as a rendering alone would, and writes the rest. -/
theorem perform_run (tree : FileTree) :
    tree.perform generator.run =
      match tree.perform (clearDirectory generator.options.outputDir) with
      | (.error failure, cleared) => (.error failure, cleared)
      | (.ok (), cleared) =>
        match generator.render with
        | .error failure => (.error failure, cleared)
        | .ok registry =>
          match cleared.perform (registry.writeAll generator.options.outputDir) with
          | (.error failure, final) => (.error failure, final)
          | (.ok written, final) => (.ok ⟨registry, written⟩, final) := by
  have hrun : generator.run (m := StateM FileTree) = (do
      clearDirectory generator.options.outputDir
      let progress ← generator.emissions.foldlM generator.runPhase ⟨Registry.empty, []⟩
      let written ← progress.registry.writeAll generator.options.outputDir
      pure { progress with written }) := by
    rw [run, phases_eq]
    simp [runPhase]
  rw [hrun]
  rcases hclear : tree.perform (clearDirectory generator.options.outputDir) with
    ⟨failure | _, cleared⟩
  · rw [FileTree.perform_bind_error _ hclear]
  · rw [FileTree.perform_bind_ok _ hclear]
    have hemit := perform_emissions generator cleared generator.emissions ⟨Registry.empty, []⟩
      generator.emissions_changesStorage
    change _ = (generator.render.map _, cleared) at hemit
    dsimp only
    rcases hrender : generator.render with failure | registry
    · rw [hrender] at hemit
      exact FileTree.perform_bind_error _ hemit
    · rw [hrender] at hemit
      rw [FileTree.perform_bind_ok _ hemit]
      dsimp only
      rcases hwrite : cleared.perform (registry.writeAll generator.options.outputDir) with
        ⟨failure | written, final⟩
      · exact FileTree.perform_bind_error _ hwrite
      · exact FileTree.perform_bind_ok _ hwrite

/-- A run that succeeds has cleared, rendered, and written what it rendered. -/
theorem writes_of_run {generator : Generator} {tree final : FileTree} {progress : Progress}
    (hrun : tree.perform generator.run = (.ok progress, final)) :
    ∃ cleared, tree.perform (clearDirectory generator.options.outputDir) = (.ok (), cleared) ∧
      generator.render = .ok progress.registry ∧
      progress.written = progress.registry.entries.map (·.path.display) ∧
      Writes generator.options.outputDir progress.registry.entries cleared final := by
  rw [perform_run] at hrun
  rcases hclear : tree.perform (clearDirectory generator.options.outputDir) with
    ⟨failure | _, cleared⟩
  · rw [hclear] at hrun
    cases hrun
  · rw [hclear] at hrun
    rcases hrender : generator.render with failure | registry
    · rw [hrender] at hrun
      cases hrun
    · rw [hrender] at hrun
      dsimp only at hrun
      rcases Registry.writeAll_cases generator.options.outputDir registry.entries [] cleared cleared
          (.start cleared) with
        ⟨last, hwrite, hwrites⟩ | ⟨_, _, _, failure, _, after, -, -, -, hwrite⟩
      · rw [hwrite] at hrun
        cases hrun
        exact ⟨cleared, rfl, rfl, rfl, hwrites⟩
      · rw [hwrite] at hrun
        cases hrun

/-- Where rendering fails, a run stops behind clearing, or there already. -/
theorem perform_run_of_render_error {generator : Generator} {failure : Failure}
    (hrender : generator.render = .error failure) (tree : FileTree) :
    tree.perform generator.run =
      match tree.perform (clearDirectory generator.options.outputDir) with
      | (.ok (), cleared) => (.error failure, cleared)
      | (.error cause, cleared) => (.error cause, cleared) := by
  rw [perform_run, hrender]
  rcases tree.perform (clearDirectory generator.options.outputDir) with ⟨cause | _, cleared⟩ <;> rfl

end Generator

end EntityClasses
