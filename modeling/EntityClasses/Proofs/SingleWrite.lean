import EntityClasses.Proofs.Effects
import EntityClasses.Proofs.FileTree.Limits
import EntityClasses.Proofs.FileTree.Locality
import EntityClasses.Proofs.Overwriting

/-! Writing a single file along names. The entries on the way decide whether it is done, and if it is not
done nothing has changed. A second file whose location is neither above nor below leaves them as they are
wherever they stop the first, so two such files are written in either order. -/

namespace EntityClasses

namespace FileTree

/-- The changes fail in this tree, if they do, for what stands in it. -/
def FailsAtEntries {α : Type} (tree : FileTree) (changes : ExceptT Failure (StateM FileTree) α) : Prop :=
  ∀ failure, (tree.perform changes).1 = .error failure → failure.isAboutEntries = true

instance {α : Type} (tree : FileTree) (changes : ExceptT Failure (StateM FileTree) α) :
    Decidable (tree.FailsAtEntries changes) :=
  match h : (tree.perform changes).1 with
  | .ok _ => .isTrue fun failure hfailure => by rw [h] at hfailure; cases hfailure
  | .error failure =>
    decidable_of_iff (failure.isAboutEntries = true)
      ⟨fun habout other hother => by rw [h] at hother; cases hother; exact habout,
        fun hfails => hfails failure h⟩

/-- A file can be written to a location: no file stands on the way to it, and no directory in its place. -/
structure CanHold (tree : FileTree) (location : Location) : Prop where
  above : ∀ front, front ≠ [] → front <+: location → front ≠ location →
    ∀ content, tree.entryAt front ≠ some (.file content)
  place : tree.entryAt location ≠ some .directory

/-- Two changes that can be made in either order: each has the outcome that it has alone, and the trees
that are left have the same entries. -/
structure EitherOrder (tree : FileTree) (changes others : ExceptT Failure (StateM FileTree) Unit) :
    Prop where
  first : ((tree.perform others).2.perform changes).1 = (tree.perform changes).1
  second : ((tree.perform changes).2.perform others).1 = (tree.perform others).1
  trees : ∀ location, ((tree.perform others).2.perform changes).2.entryAt location =
    ((tree.perform changes).2.perform others).2.entryAt location

theorem canHold_concat_iff (tree : FileTree) (front : Location) (last : String) :
    tree.CanHold (front ++ [last]) ↔
      tree.NoFileOn front ∧ tree.entryAt (front ++ [last]) ≠ some .directory := by
  constructor
  · refine fun hfree => ⟨fun above hne habove => ?_, hfree.place⟩
    refine hfree.above above hne (habove.trans (List.prefix_append front [last])) ?_
    rintro rfl
    exact not_above_of_concat List.prefix_rfl habove
  · rintro ⟨hfree, hplace⟩
    refine ⟨fun above hne habove hproper => ?_, hplace⟩
    exact hfree above hne ((List.prefix_concat_iff.mp habove).resolve_left hproper)

end FileTree

open FileTree

section OneFile

variable {tree : FileTree} (hroot : tree.entryAt [] = some .directory) {p : Path} {names : List String}
  (hspelled : p.Spelled names) (text : String)
include hroot hspelled

/-- The entries decide whether a file is written, and leave the tree alone where it is not. -/
theorem writeFile_cases (hfails : tree.FailsAtEntries (writeFile p text)) :
    (∃ after, tree.perform (writeFile p text) = (.ok (), after) ∧ tree.CanHold names ∧
      Written tree names text after) ∨
    ∃ failure, tree.perform (writeFile p text) = (.error failure, tree) ∧ ¬ tree.CanHold names := by
  obtain ⟨front, last, rfl⟩ := (List.eq_nil_or_concat' names).resolve_left hspelled.ne_nil
  have houtcome := writeFile_outcome hroot hspelled.plain hspelled.components_eq hspelled.endsInSlash text
  rw [hspelled.components_eq, ← canHold_concat_iff] at houtcome
  rcases hwrite : tree.perform (writeFile p text) with ⟨failure | _, after⟩
  · have habout := hfails failure (by rw [hwrite])
    obtain ⟨rfl, -⟩ := writeFile_stopped hroot hspelled.plain hspelled.components_eq hspelled.endsInSlash
      text hwrite habout
    rw [hwrite] at houtcome
    refine Or.inr ⟨failure, rfl, ?_⟩
    cases houtcome with
    | blocked hfull => exact hfull
    | refused hrefused =>
        rw [habout] at hrefused
        cases hrefused
  · rw [hwrite] at houtcome
    cases houtcome with
    | done hfree hwritten => exact Or.inl ⟨after, rfl, hfree, hwritten⟩

theorem writeFile_ok_iff (hfails : tree.FailsAtEntries (writeFile p text)) :
    (tree.perform (writeFile p text)).1 = .ok () ↔ tree.CanHold names := by
  rcases writeFile_cases hroot hspelled text hfails with
    ⟨after, hwrite, hfree, -⟩ | ⟨failure, hwrite, hfull⟩
  · simp [hwrite, hfree]
  · simp [hwrite, hfull]

theorem writeFile_written (hfails : tree.FailsAtEntries (writeFile p text))
    (hok : (tree.perform (writeFile p text)).1 = .ok ()) :
    Written tree names text (tree.perform (writeFile p text)).2 := by
  rcases writeFile_cases hroot hspelled text hfails with ⟨after, hwrite, -, hwritten⟩ | ⟨failure, hwrite, -⟩
  · rw [hwrite]
    exact hwritten
  · rw [hwrite] at hok
    cases hok

theorem writeFile_unchanged (hfails : tree.FailsAtEntries (writeFile p text)) {failure : Failure}
    (herror : (tree.perform (writeFile p text)).1 = .error failure) :
    (tree.perform (writeFile p text)).2 = tree := by
  rcases writeFile_cases hroot hspelled text hfails with ⟨after, hwrite, -, -⟩ | ⟨failure, hwrite, -⟩
  · rw [hwrite] at herror
    cases herror
  · rw [hwrite]

omit hroot in
/-- A path within the limits of the file system is never refused. -/
theorem failsAtEntries_of_withinLimits (hlimits : p.WithinLimits) :
    tree.FailsAtEntries (writeFile p text) := by
  obtain ⟨front, last, rfl⟩ := (List.eq_nil_or_concat' names).resolve_left hspelled.ne_nil
  intro failure hfailure
  rw [perform_writeFile_of_parent tree text (hspelled.parent?_eq rfl)] at hfailure
  rcases hcreate : tree.createDirectories ⟨"/".intercalate front⟩ with ⟨fault | _, ready⟩
  · rw [hcreate] at hfailure
    cases hfailure
    refine createAll_fault (fun q hq => ?_) hcreate
    obtain ⟨above, habove, hspelledAbove⟩ := hspelled.of_mem_ancestors_parent hq
    exact hspelled.withinLimits_above hspelledAbove habove hlimits
  · rw [hcreate] at hfailure
    dsimp only at hfailure
    rw [perform_writeText] at hfailure
    rcases hput : ready.write p text.toUTF8 with fault | written
    · rw [hput] at hfailure
      cases hfailure
      exact write_fault hlimits hput
    · rw [hput] at hfailure
      cases hfailure

omit hroot in
/-- What comes of writing a file depends on the entries on the way to it. -/
theorem writeFile_agrees {other : FileTree} (hagree : AgreeTo names tree other) :
    (tree.perform (writeFile p text)).1 = (other.perform (writeFile p text)).1 := by
  obtain ⟨front, last, rfl⟩ := (List.eq_nil_or_concat' names).resolve_left hspelled.ne_nil
  have hparent := hspelled.parent?_eq rfl
  have hcreate := createAll_agrees hagree fun _ habove => hspelled.of_mem_ancestors_parent habove
  rw [perform_writeFile_of_parent tree text hparent, perform_writeFile_of_parent other text hparent,
    createDirectories, createDirectories]
  generalize createAll (⟨"/".intercalate front⟩ : Path).ancestors tree = created,
    createAll (⟨"/".intercalate front⟩ : Path).ancestors other = otherCreated at hcreate
  obtain ⟨result, ready⟩ := created
  obtain ⟨otherResult, otherReady⟩ := otherCreated
  obtain ⟨rfl, hready⟩ := hcreate
  cases result with
  | error fault => rfl
  | ok =>
      have hwrite := write_agrees hready hspelled List.prefix_rfl text.toUTF8
      dsimp only
      rw [perform_writeText, perform_writeText]
      generalize ready.write p text.toUTF8 = written,
        otherReady.write p text.toUTF8 = otherWritten at hwrite
      cases hwrite <;> rfl

end OneFile

namespace Written

variable {tree after : FileTree} {names others : Location} {text : String}

/-- Whatever stood on the way to a file, the same stands there once it has been written. -/
theorem entryAt_eq {other otherAfter : FileTree} (hwritten : Written tree names text after)
    (hother : Written other names text otherAfter) {location : Location} (habove : location <+: names) :
    after.entryAt location = otherAfter.entryAt location := by
  by_cases hplace : location = names
  · rw [hplace, hwritten.file, hother.file]
  · rw [hwritten.above location habove hplace, hother.above location habove hplace]

/-- What is on the way to two files is a directory. -/
theorem shared (hwritten : Written tree others text after) (hbelow : ¬ others <+: names)
    {front : Location} (hfront : front <+: names) (hother : front <+: others) :
    after.entryAt front = some .directory := by
  refine hwritten.above front hother ?_
  rintro rfl
  exact hbelow hfront

section Elsewhere

variable (hwritten : Written tree others text after) (habove : ¬ names <+: others)
  (hbelow : ¬ others <+: names)
include hwritten habove hbelow

/-- What is free stays free when a file is written elsewhere. -/
theorem canHold (hfree : tree.CanHold names) : after.CanHold names := by
  refine ⟨fun front hne hfront hproper content hfile => ?_, ?_⟩
  · by_cases hshared : front <+: others
    · rw [hwritten.shared hbelow hfront hshared] at hfile
      cases hfile
    · rw [hwritten.outside front hshared] at hfile
      exact hfree.above front hne hfront hproper content hfile
  · rw [hwritten.outside names habove]
    exact hfree.place

/-- A file elsewhere leaves the way as it is where something stops the file that is to be written: the
directories on both ways were there before. -/
theorem agreeTo (hfree : tree.CanHold others) (hfull : ¬ tree.CanHold names) :
    AgreeTo names tree after := by
  intro front hfront
  by_cases hshared : front <+: others
  · rw [hwritten.shared hbelow hfront hshared]
    by_contra hmissing
    refine hfull ⟨fun file hne hfile _ content hentry => ?_,
      fun hdirectory => hmissing (directory_above hfront hdirectory)⟩
    by_cases hupper : file <+: front
    · have hproper : file ≠ others := by
        rintro rfl
        exact hbelow hfile
      exact hfree.above file hne (hupper.trans hshared) hproper content hentry
    · have hlower := (List.prefix_or_prefix_of_prefix hfile hfront).resolve_left hupper
      refine hmissing (entryAt_of_above hlower ?_ (by rw [hentry]; exact Option.some_ne_none _))
      rintro rfl
      exact hupper List.prefix_rfl
  · rw [hwritten.outside front hshared]

end Elsewhere

/-- Two files that are both written leave one tree, whichever comes first. -/
theorem either_order {one two both otherBoth : FileTree} {otherText : String}
    (habove : ¬ names <+: others) (hbelow : ¬ others <+: names)
    (hone : Written tree names text one) (hboth : Written one others otherText both)
    (htwo : Written tree others otherText two) (hotherBoth : Written two names text otherBoth)
    (location : Location) : otherBoth.entryAt location = both.entryAt location := by
  by_cases hnames : location <+: names
  · by_cases hothers : location <+: others
    · rw [hotherBoth.shared habove hothers hnames, hboth.shared hbelow hnames hothers]
    · rw [hboth.outside location hothers, hotherBoth.entryAt_eq hone hnames]
  · rw [hotherBoth.outside location hnames]
    by_cases hothers : location <+: others
    · exact htwo.entryAt_eq hboth hothers
    · rw [htwo.outside location hothers, hboth.outside location hothers, hone.outside location hnames]

end Written

section TwoFiles

variable {tree : FileTree} (hroot : tree.entryAt [] = some .directory) {p q : Path}
  {names others : List String} (hspelled : p.Spelled names) (hother : q.Spelled others)
  (habove : ¬ names <+: others) (hbelow : ¬ others <+: names) {text otherText : String}
  (hfails : tree.FailsAtEntries (writeFile p text))
  (hotherFails : tree.FailsAtEntries (writeFile q otherText))
include hroot hspelled hfails

theorem writeFile_root : (tree.perform (writeFile p text)).2.entryAt [] = some .directory := by
  rcases writeFile_cases hroot hspelled text hfails with ⟨after, hwrite, -, hwritten⟩ | ⟨failure, hwrite, -⟩
  · rw [hwrite]
    exact hwritten.above [] List.nil_prefix (Ne.symm hspelled.ne_nil)
  · rw [hwrite]
    exact hroot

include hother habove hbelow hotherFails

/-- A file has the outcome that it has alone also behind another. -/
theorem writeFile_behind_other :
    ((tree.perform (writeFile q otherText)).2.perform (writeFile p text)).1 =
      (tree.perform (writeFile p text)).1 := by
  have hrootAfter := writeFile_root hroot hother hotherFails
  rcases writeFile_cases hroot hother otherText hotherFails with
    ⟨after, hwrite, hotherFree, hwritten⟩ | ⟨failure, hwrite, -⟩
  · rw [hwrite] at hrootAfter ⊢
    rcases writeFile_cases hroot hspelled text hfails with ⟨alone, halone, hfree, -⟩ | ⟨failure, -, hfull⟩
    · have hlimits := withinLimits_of_locate hspelled (writeFile_entryAt halone).1
      have hfailsAfter : after.FailsAtEntries (writeFile p text) :=
        failsAtEntries_of_withinLimits hspelled text hlimits
      rw [halone]
      exact (writeFile_ok_iff hrootAfter hspelled text hfailsAfter).mpr
        (hwritten.canHold habove hbelow hfree)
    · exact (writeFile_agrees hspelled text
        (hwritten.agreeTo habove hbelow hotherFree hfull)).symm
  · rw [hwrite]

theorem failsAtEntries_behind_other :
    (tree.perform (writeFile q otherText)).2.FailsAtEntries (writeFile p text) := by
  intro failure hfailure
  rw [writeFile_behind_other hroot hspelled hother habove hbelow hfails hotherFails] at hfailure
  exact hfails failure hfailure

theorem writeFile_eitherOrder : tree.EitherOrder (writeFile p text) (writeFile q otherText) := by
  have hfirst := writeFile_behind_other hroot hspelled hother habove hbelow hfails hotherFails
  have hsecond := writeFile_behind_other hroot hother hspelled hbelow habove hotherFails hfails
  have hrootP := writeFile_root hroot hspelled hfails
  have hrootQ := writeFile_root hroot hother hotherFails
  have hfailsQ := failsAtEntries_behind_other hroot hspelled hother habove hbelow hfails hotherFails
  have hfailsP := failsAtEntries_behind_other hroot hother hspelled hbelow habove hotherFails hfails
  refine ⟨hfirst, hsecond, fun location => ?_⟩
  rcases hp : (tree.perform (writeFile p text)).1 with failure | _
  · rw [writeFile_unchanged hrootQ hspelled text hfailsQ (hfirst.trans hp),
      writeFile_unchanged hroot hspelled text hfails hp]
  · rcases hq : (tree.perform (writeFile q otherText)).1 with failure | _
    · rw [writeFile_unchanged hrootP hother otherText hfailsP (hsecond.trans hq),
        writeFile_unchanged hroot hother otherText hotherFails hq]
    · exact Written.either_order habove hbelow (writeFile_written hroot hspelled text hfails hp)
        (writeFile_written hrootP hother otherText hfailsP (hsecond.trans hq))
        (writeFile_written hroot hother otherText hotherFails hq)
        (writeFile_written hrootQ hspelled text hfailsQ (hfirst.trans hp)) location

end TwoFiles

namespace FileTree

/-- **Writing a file is atomic and local.** Along names with single slashes between them, where nothing but
entries makes it fail, a file is written exactly if no file stands on the way and no directory in its
place; then it reads back and nothing has changed but the missing directories that lead to it, and
otherwise nothing has changed at all. Two files of which neither is above the other are written in either
order. -/
theorem writeFile_atomic_and_local (tree : FileTree) (hroot : tree.entryAt [] = some .directory) :
    (∀ (p : Path) (names : List String) (text : String), p.Spelled names →
      tree.FailsAtEntries (writeFile p text) →
        ((tree.perform (writeFile p text)).1 = .ok () ↔ tree.CanHold names) ∧
        (∀ after, tree.perform (writeFile p text) = (.ok (), after) →
          after.readText p = .ok text ∧ Written tree names text after) ∧
        ∀ failure after, tree.perform (writeFile p text) = (.error failure, after) → after = tree) ∧
    ∀ (p q : Path) (names others : List String) (text otherText : String),
      p.Spelled names → q.Spelled others → ¬ names <+: others → ¬ others <+: names →
        tree.FailsAtEntries (writeFile p text) → tree.FailsAtEntries (writeFile q otherText) →
          tree.EitherOrder (writeFile p text) (writeFile q otherText) := by
  constructor
  · intro p names text hspelled hfails
    refine ⟨writeFile_ok_iff hroot hspelled text hfails, fun after hwrite => ?_,
      fun failure after hwrite => ?_⟩
    · obtain ⟨hlocate, hentry, -⟩ := writeFile_entryAt hwrite
      have hwritten := writeFile_written hroot hspelled text hfails (by rw [hwrite])
      rw [hwrite] at hwritten
      exact ⟨readText_eq_of_entryAt hlocate hentry, hwritten⟩
    · have hunchanged := writeFile_unchanged hroot hspelled text hfails (by rw [hwrite])
      rw [hwrite] at hunchanged
      exact hunchanged
  · intro p q names others text otherText hspelled hother habove hbelow hfails hotherFails
    exact writeFile_eitherOrder hroot hspelled hother habove hbelow hfails hotherFails

/-- A directory with a file in it, and a file beside it. -/
def docsAndNotes : FileTree :=
  .directory [("docs", .directory [("a.md", .file "a".toUTF8)]), ("notes", .file "n".toUTF8)]

theorem writeFile_atomic_and_local_docsAndNotes :
    docsAndNotes.entryAt [] = some .directory ∧
    (docsAndNotes.perform (writeFile ⟨"docs/src/b.md"⟩ "b")).2.readText ⟨"docs/src/b.md"⟩ = .ok "b" ∧
    docsAndNotes.CanHold ["docs", "src", "b.md"] ∧
    ¬ docsAndNotes.CanHold ["notes", "c.md"] ∧
    docsAndNotes.EitherOrder (writeFile ⟨"docs/src/b.md"⟩ "b") (writeFile ⟨"notes/c.md"⟩ "c") := by
  have hspelled : (⟨"docs/src/b.md"⟩ : Path).Spelled ["docs", "src", "b.md"] := by decide +kernel
  have hother : (⟨"notes/c.md"⟩ : Path).Spelled ["notes", "c.md"] := by decide +kernel
  have hfails : docsAndNotes.FailsAtEntries (writeFile ⟨"docs/src/b.md"⟩ "b") := by decide +kernel
  have hotherFails : docsAndNotes.FailsAtEntries (writeFile ⟨"notes/c.md"⟩ "c") := by decide +kernel
  have hok : (docsAndNotes.perform (writeFile ⟨"docs/src/b.md"⟩ "b")).1 = .ok () := by decide +kernel
  have hstopped : (docsAndNotes.perform (writeFile ⟨"notes/c.md"⟩ "c")).1 ≠ .ok () := by decide +kernel
  obtain ⟨hsingle, hpair⟩ := writeFile_atomic_and_local docsAndNotes rfl
  obtain ⟨hiff, hwritten, -⟩ := hsingle _ _ _ hspelled hfails
  obtain ⟨hotherIff, -, -⟩ := hsingle _ _ _ hother hotherFails
  refine ⟨rfl, (hwritten _ (Prod.ext hok rfl)).1, hiff.mp hok,
    fun hfree => hstopped (hotherIff.mpr hfree), ?_⟩
  exact hpair _ _ _ _ _ _ hspelled hother (by decide) (by decide) hfails hotherFails

end FileTree

end EntityClasses
