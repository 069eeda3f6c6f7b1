import EntityClasses.Proofs.Effects
import EntityClasses.Proofs.Overwriting

/-! When a run succeeds, and what it leaves. The invariant of the writes is that the output directory
holds exactly the files written so far and the directories that lead to them. An earlier file is then
the only thing that can stand in the way of a later one, so a run succeeds whenever rendering does, no
file stands on the way to the output directory, and no planned path leads through another. -/

namespace EntityClasses

open FileTree

/-- What stands at a location and below: these files, the directories that lead to them, and nothing
else. -/
structure HoldsExactly (tree : FileTree) (base : Location) (files : List OutputFile) : Prop where
  top : tree.entryAt base = some .directory
  written : ∀ file ∈ files,
    tree.entryAt (base ++ file.path.components) = some (.file file.content.toUTF8)
  above : ∀ file ∈ files, ∀ front, front <+: file.path.components →
    front ≠ file.path.components → tree.entryAt (base ++ front) = some .directory
  nothingElse : ∀ rest, tree.entryAt (base ++ rest) ≠ none →
    rest = [] ∨ ∃ file ∈ files, rest <+: file.path.components

/-- Outside a location nothing has changed, but that a missing directory on the way to it is there. -/
def UnchangedOutside (tree : FileTree) (base : Location) (after : FileTree) : Prop :=
  ∀ other, ¬ base <+: other →
    after.entryAt other = tree.entryAt other ∨
    other <+: base ∧ tree.entryAt other = none ∧ after.entryAt other = some .directory

theorem UnchangedOutside.congr {tree after final : FileTree} {base : Location}
    (hunchanged : UnchangedOutside tree base after)
    (heq : ∀ other, ¬ base <+: other → final.entryAt other = after.entryAt other) :
    UnchangedOutside tree base final := by
  intro other hother
  rw [heq other hother]
  exact hunchanged other hother

namespace Cleared

variable {tree after : FileTree} {base : Location}

theorem holdsExactly (hcleared : Cleared tree base after) : HoldsExactly after base [] where
  top := hcleared.above base List.prefix_rfl
  written := by simp
  above := by simp
  nothingElse rest hrest := by
    refine Or.inl ?_
    by_contra hne
    exact hrest (hcleared.below _ (List.prefix_append base rest) (by simpa using hne))

theorem unchangedOutside (hcleared : Cleared tree base after)
    (hroot : tree.entryAt [] = some .directory) (hfree : tree.NoFileOn base) :
    UnchangedOutside tree base after := by
  intro other hother
  by_cases habove : other <+: base
  · rw [hcleared.above other habove]
    rcases hentry : tree.entryAt other with _ | content | _
    · exact Or.inr ⟨habove, rfl, rfl⟩
    · have hne : other ≠ [] := by
        rintro rfl
        rw [hroot] at hentry
        cases hentry
      exact absurd hentry (hfree other hne habove content)
    · exact Or.inl rfl
  · exact Or.inl (hcleared.outside other habove hother)

end Cleared

/-- A directory that has a name is left empty when it is cleared. -/
theorem holdsExactly_of_clear {tree cleared : FileTree} (hroot : tree.entryAt [] = some .directory)
    {directory : Path} (hplain : directory.Plain) (htext : directory.text ≠ "")
    (hclear : tree.perform (clearDirectory directory) = (.ok (), cleared)) :
    tree.NoFileOn directory.components ∧ HoldsExactly cleared directory.components [] ∧
      UnchangedOutside tree directory.components cleared := by
  have houtcome := clearDirectory_outcome hroot hplain (hplain.components_ne_nil htext)
  rw [hclear] at houtcome
  cases houtcome with
  | done hfree hcleared => exact ⟨hfree, hcleared.holdsExactly, hcleared.unchangedOutside hroot hfree⟩

section Step

variable {tree : FileTree} {base : Location} {files : List OutputFile}
  (hholds : HoldsExactly tree base files) {file : OutputFile} {front : List String} {last : String}
  (hcomponents : file.path.components = front ++ [last])
include hholds hcomponents

/-- Writing one more file keeps the invariant, where it replaces no other. -/
theorem HoldsExactly.of_written {after : FileTree} (hfree : tree.NoFileOn (base ++ front))
    (hplace : tree.entryAt (base ++ file.path.components) ≠ some .directory)
    (hnew : ∀ other ∈ files, other.path.components ≠ file.path.components)
    (hwritten : Written tree (base ++ file.path.components) file.content after) :
    HoldsExactly after base (files ++ [file]) := by
  have hproper : ∀ front, front <+: file.path.components → front ≠ file.path.components →
      after.entryAt (base ++ front) = some .directory := by
    intro front hfront hne
    exact hwritten.above _ ((List.prefix_append_right_inj base).mpr hfront) (by simpa using hne)
  have hkept : ∀ front, ¬ front <+: file.path.components →
      after.entryAt (base ++ front) = tree.entryAt (base ++ front) := by
    intro front hfront
    exact hwritten.outside _ fun h => hfront ((List.prefix_append_right_inj base).mp h)
  refine ⟨?_, ?_, ?_, ?_⟩
  · have htop := hproper [] List.nil_prefix (by simp [hcomponents])
    rwa [List.append_nil] at htop
  · intro other hother
    rcases List.mem_append.mp hother with hearlier | hlast
    · rw [hkept _ fun hleads => ?_, hholds.written other hearlier]
      -- an earlier file on the way would have blocked this one
      have hfront : other.path.components <+: front := by
        have hne := hnew other hearlier
        rw [hcomponents] at hleads hne
        exact (List.prefix_concat_iff.mp hleads).resolve_left hne
      have hfile := hholds.written other hearlier
      refine hfree _ (fun hnil => ?_) ((List.prefix_append_right_inj base).mpr hfront) _ hfile
      obtain ⟨hbase, hother⟩ := List.append_eq_nil_iff.mp hnil
      have htop := hholds.top
      rw [hnil] at hfile
      rw [hbase, hfile] at htop
      cases htop
    · rw [List.mem_singleton.mp hlast]
      exact hwritten.file
  · intro other hother front hfront hne
    rcases List.mem_append.mp hother with hearlier | hlast
    · by_cases hleads : front <+: file.path.components
      · refine hproper front hleads fun heq => hplace ?_
        rw [← heq]
        exact hholds.above other hearlier front hfront hne
      · rw [hkept front hleads]
        exact hholds.above other hearlier front hfront hne
    · rw [List.mem_singleton.mp hlast] at hfront hne
      exact hproper front hfront hne
  · intro rest hrest
    by_cases hleads : rest <+: file.path.components
    · exact Or.inr ⟨file, by simp, hleads⟩
    · rw [hkept rest hleads] at hrest
      rcases hholds.nothingElse rest hrest with hnil | ⟨other, hother, hbelow⟩
      · exact Or.inl hnil
      · exact Or.inr ⟨other, List.mem_append_left _ hother, hbelow⟩

/-- Nothing but an earlier file is on the way to a file. -/
theorem HoldsExactly.exists_onTheWay (hfile : ¬ tree.NoFileOn (base ++ front)) :
    ∃ other ∈ files, other.path.components <+: file.path.components ∧
      other.path.components ≠ file.path.components := by
  rw [FileTree.NoFileOn] at hfile
  push Not at hfile
  obtain ⟨above, hne, habove, content, hcontent⟩ := hfile
  rcases List.prefix_or_prefix_of_prefix habove (List.prefix_append base front) with hupper | hlower
  · rw [directory_above hupper hholds.top] at hcontent
    cases hcontent
  · obtain ⟨rest, rfl⟩ := hlower
    have hrest : rest <+: front := (List.prefix_append_right_inj base).mp habove
    rcases hholds.nothingElse rest (by rw [hcontent]; exact Option.some_ne_none _) with
      rfl | ⟨other, hother, hleads⟩
    · rw [List.append_nil, hholds.top] at hcontent
      cases hcontent
    · by_cases heq : rest = other.path.components
      · rw [heq] at hrest
        rw [hcomponents]
        refine ⟨other, hother, hrest.trans (List.prefix_append front [last]), fun hsame => ?_⟩
        rw [hsame] at hrest
        exact not_above_of_concat List.prefix_rfl hrest
      · rw [hholds.above other hother rest hleads heq] at hcontent
        cases hcontent

/-- Nothing but a directory that leads to an earlier file is in the place of a file. -/
theorem HoldsExactly.exists_below
    (hdirectory : tree.entryAt (base ++ file.path.components) = some .directory) :
    ∃ other ∈ files, file.path.components <+: other.path.components ∧
      file.path.components ≠ other.path.components := by
  rcases hholds.nothingElse file.path.components
    (by rw [hdirectory]; exact Option.some_ne_none _) with hnil | ⟨other, hother, hleads⟩
  · simp [hcomponents] at hnil
  · refine ⟨other, hother, hleads, fun heq => ?_⟩
    rw [heq, hholds.written other hother] at hdirectory
    cases hdirectory

/-- Nothing but an earlier file is in the way of a file. -/
theorem HoldsExactly.free
    (hthrough : ∀ other ∈ files, ¬ other.path.components <+: file.path.components ∧
      ¬ file.path.components <+: other.path.components) :
    tree.NoFileOn (base ++ front) ∧
      tree.entryAt (base ++ file.path.components) ≠ some .directory := by
  constructor
  · by_contra hfile
    obtain ⟨other, hother, hleads, -⟩ := hholds.exists_onTheWay hcomponents hfile
    exact (hthrough other hother).1 hleads
  · intro hdirectory
    obtain ⟨other, hother, hleads, -⟩ := hholds.exists_below hcomponents hdirectory
    exact (hthrough other hother).2 hleads

end Step

/-- A file that can be planned: its path consists of names and does not end in a slash. -/
structure OutputFile.Plain (file : OutputFile) : Prop where
  path : file.path.Plain
  last : file.path.text.toList.getLast? = some 's'

namespace OutputFile.Plain

variable {file : OutputFile} (hplain : file.Plain)
include hplain

theorem text_ne_empty : file.path.text ≠ "" := by
  intro htext
  have hlast := hplain.last
  simp [htext] at hlast

theorem exists_components : ∃ front last, file.path.components = front ++ [last] :=
  (List.eq_nil_or_concat' _).resolve_left (hplain.path.components_ne_nil hplain.text_ne_empty)

/-- The path of a file below a directory. -/
theorem join {base : Path} (hbase : base.Plain) :
    (base.join file.path).Plain ∧
      (base.join file.path).components = base.components ++ file.path.components ∧
      (base.join file.path).endsInSlash = false := by
  obtain ⟨hjoin, hcomponents⟩ :=
    hplain.path.join hbase (hplain.path.components_ne_nil hplain.text_ne_empty)
  refine ⟨hjoin, hcomponents, ?_⟩
  rw [Path.endsInSlash, Path.getLast?_text_join base hplain.text_ne_empty, hplain.last]
  decide

theorem write_outcome {tree : FileTree} (hroot : tree.entryAt [] = some .directory) {base : Path}
    (hbase : base.Plain) {front : List String} {last : String}
    (hcomponents : file.path.components = front ++ [last]) :
    Outcome Failure.isAboutEntries
      (tree.NoFileOn (base.components ++ front) ∧
        tree.entryAt (base.components ++ file.path.components) ≠ some .directory)
      (Written tree (base.components ++ file.path.components) file.content)
      (tree.perform (file.write base)) := by
  obtain ⟨hjoin, hjoinComponents, hslash⟩ := hplain.join hbase
  have hparts : (base.join file.path).components = (base.components ++ front) ++ [last] := by
    rw [hjoinComponents, hcomponents, List.append_assoc]
  rw [← hjoinComponents]
  exact writeFile_outcome hroot hjoin hparts hslash file.content

end OutputFile.Plain

/-- Along a run of writes the output directory holds exactly what has been written, and outside it
nothing changes. -/
theorem Writes.holdsExactly {base : Path} (hbase : base.Plain)
    {files : List OutputFile} {cleared final : FileTree} (hwrites : Writes base files cleared final)
    (hcleared : HoldsExactly cleared base.components []) (hfiles : ∀ file ∈ files, file.Plain)
    (hdiffer : Registry.PathsDiffer files) :
    HoldsExactly final base.components files ∧
      ∀ other, ¬ base.components <+: other → final.entryAt other = cleared.entryAt other := by
  induction hwrites with
  | start tree => exact ⟨hcleared, fun _ _ => rfl⟩
  | @next files file cleared before after hbefore hwrite ih =>
      rw [Registry.pathsDiffer_concat] at hdiffer
      obtain ⟨hholds, houtside⟩ := ih hcleared
        (fun file hmem => hfiles file (List.mem_append_left _ hmem)) hdiffer.1
      have hplain : file.Plain := hfiles file (by simp)
      obtain ⟨front, last, hcomponents⟩ := hplain.exists_components
      have hroot : before.entryAt [] = some .directory :=
        directory_above List.nil_prefix hholds.top
      have houtcome := hplain.write_outcome hroot hbase hcomponents
      rw [hwrite] at houtcome
      cases houtcome with
      | done hfree hwritten =>
          refine ⟨hholds.of_written hcomponents hfree.1 hfree.2 hdiffer.2 hwritten, ?_⟩
          intro other hother
          rw [← houtside other hother]
          by_cases habove : other <+: base.components ++ file.path.components
          · have hupper : other <+: base.components :=
              (List.prefix_or_prefix_of_prefix habove (List.prefix_append _ _)).resolve_right hother
            have hne : other ≠ base.components ++ file.path.components := by
              rintro rfl
              exact hother (List.prefix_append _ _)
            rw [hwritten.above other habove hne, directory_above hupper hholds.top]
          · exact hwritten.outside other habove

/-- No path leads through another. -/
def NoneLeadsThrough (paths : List Path) : Prop :=
  ∀ path ∈ paths, ∀ other ∈ paths, path.components <+: other.components →
    path.components = other.components

theorem HoldsExactly.noneLeadsThrough {tree : FileTree} {base : Location} {files : List OutputFile}
    (hholds : HoldsExactly tree base files) : NoneLeadsThrough (files.map (·.path)) := by
  intro path hpath other hother hleads
  obtain ⟨file, hfile, rfl⟩ := List.mem_map.mp hpath
  obtain ⟨through, hthrough, rfl⟩ := List.mem_map.mp hother
  by_contra hne
  have hdirectory := hholds.above through hthrough _ hleads hne
  rw [hholds.written file hfile] at hdirectory
  cases hdirectory

/-- No earlier file is in the way of a later one. -/
theorem notInTheWay {earlier later : List OutputFile} {file : OutputFile}
    (hdiffer : Registry.PathsDiffer (earlier ++ file :: later))
    (hthrough : NoneLeadsThrough ((earlier ++ file :: later).map (·.path))) :
    ∀ other ∈ earlier, ¬ other.path.components <+: file.path.components ∧
      ¬ file.path.components <+: other.path.components := by
  intro other hother
  have hpath : file.path ∈ (earlier ++ file :: later).map (·.path) := List.mem_map_of_mem (by simp)
  have hotherPath : other.path ∈ (earlier ++ file :: later).map (·.path) :=
    List.mem_map_of_mem (List.mem_append_left _ hother)
  have hne : other.path.components ≠ file.path.components :=
    (List.pairwise_append.mp hdiffer).2.2 other hother file List.mem_cons_self
  constructor
  · intro hleads
    exact hne (hthrough _ hotherPath _ hpath hleads)
  · intro hleads
    exact hne (hthrough _ hpath _ hotherPath hleads).symm

/-- Files none of which leads through another are all written, unless a write is refused. -/
theorem Registry.writeAll_of_noneLeadsThrough {base : Path} (hbase : base.Plain)
    {files : List OutputFile} (hfiles : ∀ file ∈ files, file.Plain)
    (hdiffer : PathsDiffer files) (hthrough : NoneLeadsThrough (files.map (·.path)))
    {cleared : FileTree} (hcleared : HoldsExactly cleared base.components []) :
    (∃ final, cleared.perform (writeAll ⟨files⟩ base) =
      (.ok (files.map (·.path.display)), final)) ∨
    ∃ failure final, cleared.perform (writeAll ⟨files⟩ base) = (.error failure, final) ∧
      failure.isAboutEntries = false := by
  rcases writeAll_cases base files [] cleared cleared (.start cleared) with
    ⟨final, hwrite, -⟩ | ⟨earlier, file, later, failure, before, after, rfl, hwrites, hfile, hwrite⟩
  · exact Or.inl ⟨final, hwrite⟩
  · obtain ⟨hholds, -⟩ := hwrites.holdsExactly hbase hcleared
      (fun other hother => hfiles other (List.mem_append_left _ hother))
      (List.pairwise_append.mp hdiffer).1
    have hplain : file.Plain := hfiles file (by simp)
    obtain ⟨front, last, hcomponents⟩ := hplain.exists_components
    have hroot : before.entryAt [] = some .directory := directory_above List.nil_prefix hholds.top
    have hfree := hholds.free hcomponents (notInTheWay hdiffer hthrough)
    rcases (hplain.write_outcome hroot hbase hcomponents).of_free hfree with
      ⟨written, hdone, -⟩ | ⟨error, partly, herror, habout⟩
    · rw [hfile] at hdone
      cases hdone
    · rw [hfile] at herror
      cases herror
      exact Or.inr ⟨failure, after, hwrite, habout⟩

namespace Generator

section Plain

variable {generator : Generator} (hplanned : ∀ path ∈ generator.plannedPaths, path.Plain)
include hplanned

theorem plan_plain : ∀ file ∈ generator.plan, file.Plain := by
  intro file hfile
  have hpath : file.path ∈ generator.plannedPaths := List.mem_map_of_mem hfile
  obtain ⟨directory, name, hjoin⟩ := exists_join_of_mem_plannedPaths hpath
  have hname : (name ++ ".ts") ≠ "" := by
    intro h
    have hlength := congrArg String.length h
    simp at hlength
  refine ⟨hplanned file.path hpath, ?_⟩
  rw [hjoin, Path.getLast?_text_join ⟨directory⟩ hname]
  simp

variable {tree : FileTree} (hroot : tree.entryAt [] = some .directory)
  (hnonempty : generator.options.outputDir.text ≠ "") (hplain : generator.options.outputDir.Plain)
include hroot hnonempty hplain

theorem shape_of_run {final : FileTree} {progress : Progress}
    (hrun : tree.perform generator.run = (.ok progress, final)) :
    generator.render = .ok progress.registry ∧ progress.registry.entries = generator.plan ∧
      tree.NoFileOn generator.options.outputDir.components ∧
      HoldsExactly final generator.options.outputDir.components generator.plan ∧
      UnchangedOutside tree generator.options.outputDir.components final := by
  obtain ⟨cleared, hclear, hrender, -, hwrites⟩ := writes_of_run hrun
  obtain ⟨hregistry, hdiffer⟩ := plan_of_render hrender
  rw [hregistry] at hrender hwrites ⊢
  obtain ⟨hfree, hempty, hunchanged⟩ := holdsExactly_of_clear hroot hplain hnonempty hclear
  obtain ⟨hholds, houtside⟩ := hwrites.holdsExactly hplain hempty (plan_plain hplanned) hdiffer
  exact ⟨hrender, rfl, hfree, hholds, hunchanged.congr houtside⟩

/-- Where nothing is in the way a run succeeds, unless the file system refuses a step. -/
theorem run_of_noneLeadsThrough (hrender : generator.render = .ok ⟨generator.plan⟩)
    (hdiffer : Registry.PathsDiffer generator.plan)
    (hfree : tree.NoFileOn generator.options.outputDir.components)
    (hthrough : NoneLeadsThrough generator.plannedPaths) :
    (∃ progress final, tree.perform generator.run = (.ok progress, final)) ∨
    ∃ failure final, tree.perform generator.run = (.error failure, final) ∧
      failure.isAboutEntries = false := by
  rcases (clearDirectory_outcome hroot hplain (hplain.components_ne_nil hnonempty)).of_free hfree with
    ⟨cleared, hclear, hcleared⟩ | ⟨failure, partly, hclear, habout⟩
  · rcases Registry.writeAll_of_noneLeadsThrough hplain (plan_plain hplanned) hdiffer
      hthrough hcleared.holdsExactly with ⟨final, hwrite⟩ | ⟨failure, final, hwrite, habout⟩
    · refine Or.inl ⟨⟨⟨generator.plan⟩, generator.plan.map (·.path.display)⟩, final, ?_⟩
      rw [perform_run, hclear, hrender]
      dsimp only
      rw [hwrite]
    · refine Or.inr ⟨failure, final, ?_, habout⟩
      rw [perform_run, hclear, hrender]
      dsimp only
      rw [hwrite]
  · refine Or.inr ⟨failure, partly, ?_, habout⟩
    rw [perform_run, hclear]

end Plain

/-- **When a run succeeds, and what it leaves.** Where nothing is refused but for an entry that is
missing, a file or a directory, a run along plain paths succeeds exactly if rendering does, no file stands
on the way to the output directory or at it, and no planned path leads through another. The output
directory then holds the rendered files with the directories that lead to them and nothing else, and
outside it only missing directories on the way to it are new. -/
theorem run_ok_iff (generator : Generator) (tree : FileTree)
    (hroot : tree.entryAt [] = some .directory)
    (hnonempty : generator.options.outputDir.text ≠ "")
    (hplain : generator.options.outputDir.Plain)
    (hplanned : ∀ path ∈ generator.plannedPaths, path.Plain)
    (hfaults : ∀ failure final, tree.perform generator.run = (.error failure, final) →
      failure.isAboutEntries = true) :
    ((∃ progress final, tree.perform generator.run = (.ok progress, final)) ↔
      (∃ registry, generator.render = .ok registry) ∧
      tree.NoFileOn generator.options.outputDir.components ∧
      NoneLeadsThrough generator.plannedPaths) ∧
    ∀ progress final, tree.perform generator.run = (.ok progress, final) →
      ∃ registry, generator.render = .ok registry ∧
        HoldsExactly final generator.options.outputDir.components registry.entries ∧
        UnchangedOutside tree generator.options.outputDir.components final := by
  constructor
  · constructor
    · rintro ⟨progress, final, hrun⟩
      obtain ⟨hrender, -, hfree, hholds, -⟩ := shape_of_run hplanned hroot hnonempty hplain hrun
      exact ⟨⟨_, hrender⟩, hfree, hholds.noneLeadsThrough⟩
    · rintro ⟨⟨registry, hrender⟩, hfree, hthrough⟩
      obtain ⟨rfl, hdiffer⟩ := plan_of_render hrender
      rcases run_of_noneLeadsThrough hplanned hroot hnonempty hplain hrender hdiffer hfree hthrough with
        hrun | ⟨failure, final, hrun, habout⟩
      · exact hrun
      · rw [hfaults failure final hrun] at habout
        cases habout
  · intro progress final hrun
    obtain ⟨hrender, hentries, -, hholds, houtside⟩ :=
      shape_of_run hplanned hroot hnonempty hplain hrun
    exact ⟨_, hrender, hentries ▸ hholds, houtside⟩

/-- One enum, generated where an older generation has left a file. -/
def oneEnum : Generator where
  datamodel := ⟨[⟨"Role", ["USER"]⟩], []⟩
  options := .new ⟨"gen"⟩

def oneEnumTree : FileTree :=
  .directory [("gen", .directory [("old.ts", .file "".toUTF8)])]

theorem run_ok_oneEnum : ∃ progress final registry,
    oneEnumTree.perform oneEnum.run = (.ok progress, final) ∧ oneEnum.render = .ok registry ∧
      HoldsExactly final ["gen"] registry.entries ∧ UnchangedOutside oneEnumTree ["gen"] final := by
  have hok : (oneEnumTree.perform oneEnum.run).1.isOk = true := by decide +kernel
  have hplanned : ∀ path ∈ oneEnum.plannedPaths, path.Plain := by decide +kernel
  rcases hrun : oneEnumTree.perform oneEnum.run with ⟨failure | progress, final⟩
  · rw [hrun] at hok
    cases hok
  · have hfaults : ∀ failure after, oneEnumTree.perform oneEnum.run = (.error failure, after) →
        failure.isAboutEntries = true := by
      intro failure after hfails
      rw [hrun] at hfails
      cases hfails
    obtain ⟨registry, hrender, hholds, houtside⟩ :=
      (run_ok_iff oneEnum oneEnumTree rfl (by decide) (by decide) hplanned hfaults).2
        progress final hrun
    exact ⟨progress, final, registry, rfl, hrender, hholds, houtside⟩

end Generator

end EntityClasses
