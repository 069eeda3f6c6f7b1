import EntityClasses.Proofs.OutputTree

/-! What a run leaves that fails while it writes. The files written so far are all that stands in the
output directory, so the file that cannot be written has met one of them: it is on the way to the new
one, or the new one is on the way to it. The file that fails leaves nothing, not even directories. -/

namespace EntityClasses

open FileTree

/-- Clearing a directory succeeds and leaves nothing below it. The empty path names no directory, and
whatever stands below it stays, so it can be cleared only where nothing is to be removed. -/
def FileTree.CanBeCleared (tree : FileTree) (directory : Path) : Prop :=
  ∃ cleared, tree.perform (clearDirectory directory) = (.ok (), cleared) ∧
    ∀ rest, rest ≠ [] → cleared.entryAt (directory.components ++ rest) = none

namespace FileTree

variable {tree : FileTree} (hroot : tree.entryAt [] = some .directory) {directory : Path}
  (hplain : directory.Plain)
include hroot hplain

/-- A directory that has a name can be cleared wherever clearing it succeeds. -/
theorem canBeCleared_iff (htext : directory.text ≠ "") :
    tree.CanBeCleared directory ↔
      ∃ cleared, tree.perform (clearDirectory directory) = (.ok (), cleared) := by
  constructor
  · rintro ⟨cleared, hclear, -⟩
    exact ⟨cleared, hclear⟩
  · rintro ⟨cleared, hclear⟩
    obtain ⟨-, hholds, -⟩ := holdsExactly_of_clear hroot hplain htext hclear
    refine ⟨cleared, hclear, fun rest hrest => ?_⟩
    by_contra hentry
    rcases hholds.nothingElse rest hentry with hnil | ⟨_, hfile, -⟩
    · exact hrest hnil
    · cases hfile

theorem CanBeCleared.holdsExactly (hclears : tree.CanBeCleared directory) :
    ∃ cleared, tree.perform (clearDirectory directory) = (.ok (), cleared) ∧
      HoldsExactly cleared directory.components [] ∧
      UnchangedOutside tree directory.components cleared := by
  obtain ⟨cleared, hclear, hempty⟩ := hclears
  refine ⟨cleared, hclear, ?_⟩
  by_cases htext : directory.text = ""
  · have hcomponents := Path.components_of_text_empty htext
    have habsent : tree.exists directory = false := by
      simp [FileTree.exists, locate, Path.fault?, htext, Except.isOk, Except.toBool]
    have hcreate : tree.createDirectories directory = (.ok (), tree) := by
      rw [createDirectories, Path.ancestors, hcomponents]
      rfl
    rw [perform_clearDirectory, habsent, if_neg (by decide)] at hclear
    dsimp only at hclear
    rw [perform_createDirectories, hcreate] at hclear
    cases hclear
    rw [hcomponents] at hempty ⊢
    refine ⟨⟨hroot, by simp, by simp, fun rest hrest => Or.inl ?_⟩, fun other hother => ?_⟩
    · by_contra hne
      exact hrest (hempty rest hne)
    · exact absurd List.nil_prefix hother
  · exact (holdsExactly_of_clear hroot hplain htext hclear).2

end FileTree

/-- How the writing of a file fails at an earlier one. An earlier file on the way leaves no directory to
write in; a directory that leads to an earlier file is in the place of the new one. -/
inductive StopsAt (base : Path) (earlier file : OutputFile) : Failure → Prop where
  | onTheWay {parent : Path} {fault : Fault} :
      earlier.path.components <+: file.path.components →
      earlier.path.components ≠ file.path.components →
      (base.join file.path).parent? = some parent →
      StopsAt base earlier file (.createParent parent fault)
  | inPlace {fault : Fault} :
      file.path.components <+: earlier.path.components →
      file.path.components ≠ earlier.path.components →
      StopsAt base earlier file (.write (base.join file.path) fault)

/-- Where a tree holds the files written so far, only one of them can stop the next. -/
theorem HoldsExactly.stopsAt {base : Path} (hbase : base.Plain) {tree after : FileTree}
    {files : List OutputFile} (hholds : HoldsExactly tree base.components files) {file : OutputFile}
    (hplain : file.Plain) {failure : Failure}
    (hwrite : tree.perform (file.write base) = (.error failure, after))
    (habout : failure.isAboutEntries = true) :
    after = tree ∧ ∃ earlier ∈ files, StopsAt base earlier file failure := by
  obtain ⟨front, last, hcomponents⟩ := hplain.exists_components
  have hroot : tree.entryAt [] = some .directory := directory_above List.nil_prefix hholds.top
  obtain ⟨hjoin, hparts, hslash⟩ := hplain.join hbase
  have hplace : (base.join file.path).components = (base.components ++ front) ++ [last] := by
    rw [hparts, hcomponents, List.append_assoc]
  obtain ⟨hsame, hstopped⟩ := writeFile_stopped hroot hjoin hplace hslash file.content hwrite habout
  refine ⟨hsame, ?_⟩
  cases hstopped with
  | onTheWay hparent hfile =>
      obtain ⟨earlier, hmem, hleads, hne⟩ := hholds.exists_onTheWay hcomponents hfile
      exact ⟨earlier, hmem, .onTheWay hleads hne hparent⟩
  | inPlace _ hdirectory =>
      rw [hparts] at hdirectory
      obtain ⟨earlier, hmem, hleads, hne⟩ := hholds.exists_below hcomponents hdirectory
      exact ⟨earlier, hmem, .inPlace hleads hne⟩

namespace Generator

/-- **A failing flush leaves exactly a prefix.** Where the output directory can be cleared and rendering
succeeds, a run along plain paths that an entry stops has stopped at the first file whose path leads
through that of an earlier one, or the other way around. The output directory then holds the files in
front of it with the directories that lead to them and nothing else, and outside it only missing
directories on the way to it are new. -/
theorem failing_flush_leaves_prefix (generator : Generator) (tree : FileTree)
    (hroot : tree.entryAt [] = some .directory)
    (hplain : generator.options.outputDir.Plain)
    (hplanned : ∀ path ∈ generator.plannedPaths, path.Plain)
    (hclears : tree.CanBeCleared generator.options.outputDir)
    {registry : Registry} (hrender : generator.render = .ok registry)
    {failure : Failure} {final : FileTree}
    (hrun : tree.perform generator.run = (.error failure, final))
    (habout : failure.isAboutEntries = true) :
    ∃ earlier file later, registry.entries = earlier ++ file :: later ∧
      NoneLeadsThrough (earlier.map (·.path)) ∧
      (∃ other ∈ earlier, StopsAt generator.options.outputDir other file failure) ∧
      HoldsExactly final generator.options.outputDir.components earlier ∧
      UnchangedOutside tree generator.options.outputDir.components final := by
  obtain ⟨cleared, hclear, hempty, houtside⟩ := hclears.holdsExactly hroot hplain
  obtain ⟨rfl, hdiffer⟩ := plan_of_render hrender
  rw [perform_run, hclear, hrender] at hrun
  dsimp only at hrun
  rcases Registry.writeAll_cases generator.options.outputDir generator.plan [] cleared cleared
      (.start cleared) with
    ⟨last, hwrite, -⟩ | ⟨earlier, file, later, cause, before, after, hsplit, hwrites, hfile, hwrite⟩
  · rw [hwrite] at hrun
    cases hrun
  · rw [hwrite] at hrun
    cases hrun
    have hfiles := plan_plain hplanned
    rw [hsplit] at hdiffer hfiles
    obtain ⟨hholds, hunchanged⟩ := hwrites.holdsExactly hplain hempty
      (fun other hother => hfiles other (List.mem_append_left _ hother))
      (List.pairwise_append.mp hdiffer).1
    obtain ⟨rfl, hstops⟩ := hholds.stopsAt hplain (hfiles file (by simp)) hfile habout
    exact ⟨earlier, file, later, hsplit, hholds.noneLeadsThrough, hstops, hholds,
      houtside.congr hunchanged⟩

/-- A generator that puts its enums into a directory with the name of a model's file. -/
def clashing : Generator where
  datamodel := ⟨[⟨"Role", ["USER"]⟩], [⟨"User", []⟩]⟩
  options := ⟨⟨"gen"⟩, "entities/User.ts", "models"⟩

theorem clashing_leaves_prefix : ∃ failure final registry earlier file later,
    oneEnumTree.perform clashing.run = (.error failure, final) ∧ clashing.render = .ok registry ∧
      registry.entries = earlier ++ file :: later ∧
      (∃ other ∈ earlier, StopsAt ⟨"gen"⟩ other file failure) ∧
      HoldsExactly final ["gen"] earlier ∧ UnchangedOutside oneEnumTree ["gen"] final := by
  have hplanned : ∀ path ∈ clashing.plannedPaths, path.Plain := by decide +kernel
  have hcleared : (oneEnumTree.perform (clearDirectory ⟨"gen"⟩)).1.isOk = true := by decide +kernel
  have hrendered : clashing.render.isOk = true := by decide +kernel
  have habout : (match (oneEnumTree.perform clashing.run).1 with
      | .error failure => failure.isAboutEntries
      | .ok _ => false) = true := by decide +kernel
  have hclears : oneEnumTree.CanBeCleared clashing.options.outputDir := by
    refine (canBeCleared_iff rfl (by decide) (by decide)).mpr ?_
    rcases hclear : oneEnumTree.perform (clearDirectory ⟨"gen"⟩) with ⟨_ | _, cleared⟩
    · rw [hclear] at hcleared
      cases hcleared
    · exact ⟨cleared, hclear⟩
  rcases hrender : clashing.render with _ | registry
  · rw [hrender] at hrendered
    cases hrendered
  rcases hrun : oneEnumTree.perform clashing.run with ⟨failure | _, final⟩
  · rw [hrun] at habout
    obtain ⟨earlier, file, later, hsplit, -, hstops, hholds, houtside⟩ :=
      failing_flush_leaves_prefix clashing oneEnumTree rfl (by decide) hplanned hclears hrender hrun
        habout
    exact ⟨failure, final, registry, earlier, file, later, rfl, rfl, hsplit, hstops, hholds, houtside⟩
  · rw [hrun] at habout
    cases habout

end Generator

end EntityClasses
