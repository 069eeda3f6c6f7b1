import EntityClasses.Proofs.FileTree.Change
import EntityClasses.Proofs.Run

/-! Whether generated files replace each other. The registry compares paths by their components, the
file tree by the locations they lead to, and where a directory is spelled with dots the two differ. A run
that succeeds has left every file readable exactly when files with one target have one content. -/

namespace EntityClasses

/-- The location where a file goes below a directory. -/
def OutputFile.target (base : Path) (file : OutputFile) : FileTree.Location :=
  (base.join file.path).target

section Write

variable {tree written : FileTree} {p : Path} {text : String}

theorem writeFile_ok (hwrite : tree.perform (writeFile p text) = (.ok (), written)) :
    ∃ ready, FileTree.Keeps tree ready ∧ ready.write p text.toUTF8 = .ok written := by
  have hwriteText : ∀ ready : FileTree,
      ready.perform (failingAs (.write p) (Storage.writeText p text)) = (.ok (), written) →
        ready.write p text.toUTF8 = .ok written := by
    intro ready hready
    rw [FileTree.perform_writeText] at hready
    rcases hresult : ready.write p text.toUTF8 with fault | result
    · rw [hresult] at hready
      cases hready
    · rw [hresult] at hready
      cases hready
      rfl
  rcases hparent : p.parent? with _ | parent
  · rw [FileTree.perform_writeFile_of_no_parent tree text hparent] at hwrite
    exact ⟨tree, FileTree.Keeps.refl tree, hwriteText tree hwrite⟩
  · rw [FileTree.perform_writeFile_of_parent tree text hparent] at hwrite
    have hkeeps := FileTree.createDirectories_keeps parent tree
    rcases hcreate : tree.createDirectories parent with ⟨fault | _, ready⟩
    · rw [hcreate] at hwrite
      cases hwrite
    · rw [hcreate] at hwrite hkeeps
      exact ⟨ready, hkeeps, hwriteText ready hwrite⟩

/-- A file that has been written stands at its target, and every other file stays as it was. -/
theorem writeFile_entryAt (hwrite : tree.perform (writeFile p text) = (.ok (), written)) :
    written.locate p = .ok p.target ∧ written.entryAt p.target = some (.file text.toUTF8) ∧
      ∀ other entry, other ≠ p.target → tree.entryAt other = some entry →
        written.entryAt other = some entry := by
  obtain ⟨ready, hkeeps, hready⟩ := writeFile_ok hwrite
  obtain ⟨-, hentry, hlocate⟩ := FileTree.write_ok hready
  refine ⟨hlocate, by rw [hentry, if_pos rfl], ?_⟩
  intro other entry hne hother
  rw [hentry, if_neg hne]
  exact hkeeps other entry hother

theorem writeFile_grows (hwrite : tree.perform (writeFile p text) = (.ok (), written)) :
    FileTree.Grows tree written := by
  obtain ⟨ready, hkeeps, hready⟩ := writeFile_ok hwrite
  obtain ⟨hplace, hentry, -⟩ := FileTree.write_ok hready
  apply hkeeps.grows.trans
  intro other
  rw [hentry]
  split_ifs with hother
  · rw [hother]
    exact ⟨fun hdirectory => absurd hdirectory hplace, fun _ => Option.some_ne_none _⟩
  · exact ⟨id, id⟩

end Write

namespace Writes

variable {base : Path} {files : List OutputFile} {tree final : FileTree}

/-- The paths of written files lead to their targets from then on. -/
theorem locate (hwrites : Writes base files tree final) :
    ∀ file ∈ files, final.locate (base.join file.path) = .ok (file.target base) := by
  induction hwrites with
  | start tree => simp
  | next hbefore hwrite ih =>
      intro file hmem
      rcases List.mem_append.mp hmem with hearlier | hlast
      · exact FileTree.locate_of_grows (writeFile_grows hwrite) (ih file hearlier)
      · rw [List.mem_singleton.mp hlast]
        exact (writeFile_entryAt hwrite).1

/-- Files that agree wherever they meet are all there in the end. -/
theorem entryAt_target (hwrites : Writes base files tree final)
    (hagree : ∀ file ∈ files, ∀ other ∈ files, file.target base = other.target base →
      file.content = other.content) :
    ∀ file ∈ files, final.entryAt (file.target base) = some (.file file.content.toUTF8) := by
  induction hwrites with
  | start tree => simp
  | @next files last tree before after hbefore hwrite ih =>
      intro file hmem
      obtain ⟨-, hlast, hothers⟩ := writeFile_entryAt hwrite
      by_cases htarget : file.target base = last.target base
      · rw [htarget, hagree file hmem last (by simp) htarget]
        exact hlast
      · have hearlier : file ∈ files := by
          rcases List.mem_append.mp hmem with hearlier | hsame
          · exact hearlier
          · exact absurd (by rw [List.mem_singleton.mp hsame]) htarget
        refine hothers _ _ htarget (ih (fun file hfile other hother => ?_) file hearlier)
        exact hagree file (List.mem_append_left _ hfile) other (List.mem_append_left _ hother)

end Writes

namespace Generator

/-- **When generated files survive each other.** After a run that succeeds every rendered file reads
back if and only if rendered files that lead to one location have one content. -/
theorem run_readable_iff (generator : Generator) (tree final : FileTree) (progress : Progress)
    (registry : Registry) (hrun : tree.perform generator.run = (.ok progress, final))
    (hrender : generator.render = .ok registry) :
    (∀ file ∈ registry.entries,
      final.readText (generator.options.outputDir.join file.path) = .ok file.content) ↔
    ∀ file ∈ registry.entries, ∀ other ∈ registry.entries,
      file.target generator.options.outputDir = other.target generator.options.outputDir →
        file.content = other.content := by
  obtain ⟨cleared, -, hrendered, -, hwrites⟩ := writes_of_run hrun
  rw [hrender] at hrendered
  cases hrendered
  constructor
  · intro hread file hfile other hother htarget
    have hsame : final.readText (generator.options.outputDir.join file.path) =
        final.readText (generator.options.outputDir.join other.path) := by
      rw [FileTree.readText, FileTree.readText, FileTree.read, FileTree.read,
        hwrites.locate file hfile, hwrites.locate other hother, htarget]
    rw [hread file hfile, hread other hother] at hsame
    exact Except.ok.inj hsame
  · intro hagree file hfile
    exact FileTree.readText_eq_of_entryAt (hwrites.locate file hfile)
      (hwrites.entryAt_target hagree file hfile)

/-- A generation whose model directory is the directory of the enums, spelled with a dot. -/
def dottedEnums : Generator where
  datamodel := ⟨[⟨"A", []⟩], []⟩
  options := ⟨⟨"gen"⟩, "enums", "./enums"⟩

/-- Its run succeeds, and the empty barrel of the models stands where the barrel of the enums was
written. -/
theorem dottedEnums_run : ∃ progress final,
    FileTree.empty.perform dottedEnums.run = (.ok progress, final) ∧
      dottedEnums.render = .ok progress.registry ∧
      GeneratedFile.barrel "enums" ["A"] ∈ progress.registry.entries ∧
      final.readText ⟨"gen/enums/index.ts"⟩ = .ok "" := by
  have hok : (FileTree.empty.perform dottedEnums.run).1.isOk = true := by decide +kernel
  have hread : (FileTree.empty.perform dottedEnums.run).2.readText ⟨"gen/enums/index.ts"⟩ =
      .ok "" := by decide +kernel
  have hbarrel : GeneratedFile.barrel "enums" ["A"] ∈ dottedEnums.plan := by
    simp [plan, dottedEnums, GeneratedFile.mk_barrel]
  rcases hrun : FileTree.empty.perform dottedEnums.run with ⟨failure | progress, final⟩
  · rw [hrun] at hok
    cases hok
  · rw [hrun] at hread
    obtain ⟨-, -, hrender, -, -⟩ := writes_of_run hrun
    refine ⟨progress, final, rfl, hrender, ?_, hread⟩
    rw [(plan_of_render hrender).1]
    exact hbarrel

theorem run_readable_iff_dottedEnums : ∃ progress final,
    FileTree.empty.perform dottedEnums.run = (.ok progress, final) ∧
      dottedEnums.render = .ok progress.registry ∧
      ((∀ file ∈ progress.registry.entries,
        final.readText (dottedEnums.options.outputDir.join file.path) = .ok file.content) ↔
      ∀ file ∈ progress.registry.entries, ∀ other ∈ progress.registry.entries,
        file.target dottedEnums.options.outputDir = other.target dottedEnums.options.outputDir →
          file.content = other.content) := by
  obtain ⟨progress, final, hrun, hrender, -, -⟩ := dottedEnums_run
  exact ⟨progress, final, hrun, hrender,
    run_readable_iff dottedEnums FileTree.empty final progress progress.registry hrun hrender⟩

/-- Rendered files do replace each other: not every run that succeeds leaves them all readable. -/
theorem run_not_always_readable :
    ¬ ∀ (generator : Generator) (tree final : FileTree) (progress : Progress) (registry : Registry),
      tree.perform generator.run = (.ok progress, final) → generator.render = .ok registry →
        ∀ file ∈ registry.entries,
          final.readText (generator.options.outputDir.join file.path) = .ok file.content := by
  intro hreadable
  obtain ⟨progress, final, hrun, hrender, hbarrel, hread⟩ := dottedEnums_run
  have hkept := hreadable dottedEnums FileTree.empty final progress progress.registry hrun hrender
    (GeneratedFile.barrel "enums" ["A"]) hbarrel
  have hpath : dottedEnums.options.outputDir.join (GeneratedFile.barrel "enums" ["A"]).path =
      ⟨"gen/enums/index.ts"⟩ := by decide
  rw [hpath, hread] at hkept
  have hempty : "" = (GeneratedFile.barrel "enums" ["A"]).content := Except.ok.inj hkept
  have hsome : (GeneratedFile.barrel "enums" ["A"]).content ≠ "" := by decide +kernel
  exact hsome hempty.symm

end Generator

end EntityClasses
