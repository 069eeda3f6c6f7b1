import EntityClasses.Proofs.FileTree.Creation
import EntityClasses.Proofs.FileTree.Removal
import EntityClasses.Proofs.Perform

/-! What the two changes of a generation do along plain paths. Clearing leaves an empty directory and
touches nothing beside it; writing leaves a file and the directories that lead to it. A file on the way
is the only entry that stops either of them, and a directory in its place stops a file. -/

namespace EntityClasses

open FileTree

namespace FileTree.Outcome

variable {free before : Prop} {result done : FileTree → Prop}

/-- The outcome of a change in the terms of a larger one that it ends. -/
theorem imp {ε : Type} {isAboutEntries : ε → Bool} {ending : Except ε Unit × FileTree}
    (houtcome : Outcome isAboutEntries free result ending) (hfree : before → free)
    (hresult : ∀ after, free → result after → before ∧ done after) :
    Outcome isAboutEntries before done ending := by
  cases houtcome with
  | done hnow hafter =>
      obtain ⟨hbefore, hdone⟩ := hresult _ hnow hafter
      exact .done hbefore hdone
  | blocked hnow => exact .blocked (hnow ∘ hfree)
  | refused habout => exact .refused habout

variable (failure : Fault → Failure) (hfailure : ∀ fault, (failure fault).fault? = some fault)
include hfailure

theorem failingAs {ending : Except Fault Unit × FileTree}
    (houtcome : Outcome Fault.isAboutEntries free result ending) :
    Outcome Failure.isAboutEntries free result (ending.1.mapError failure, ending.2) := by
  cases houtcome with
  | done hfree hresult => exact .done hfree hresult
  | blocked hfree => exact .blocked hfree
  | refused habout =>
      refine .refused ?_
      rw [Failure.isAboutEntries, hfailure]
      exact habout

/-- One change after another: the first must be free to be done whenever both are. -/
theorem andThen {next : FileTree → Except Failure Unit × FileTree} (hfree : before → free)
    (hnext : ∀ after, free → result after →
      Outcome Failure.isAboutEntries before done (next after))
    {ending : Except Fault Unit × FileTree} :
    Outcome Fault.isAboutEntries free result ending →
      Outcome Failure.isAboutEntries before done
        (match ending with
          | (.ok (), after) => next after
          | (.error fault, partly) => (.error (failure fault), partly)) := by
  intro houtcome
  cases houtcome with
  | done hnow hafter => exact hnext _ hnow hafter
  | blocked hnow => exact .blocked (hnow ∘ hfree)
  | refused habout =>
      refine .refused ?_
      rw [Failure.isAboutEntries, hfailure]
      exact habout

end FileTree.Outcome

/-- An empty directory at a location, in a tree that is otherwise as it was. -/
structure Cleared (tree : FileTree) (location : Location) (after : FileTree) : Prop where
  above : ∀ other, other <+: location → after.entryAt other = some .directory
  below : ∀ other, location <+: other → other ≠ location → after.entryAt other = none
  outside : ∀ other, ¬ other <+: location → ¬ location <+: other →
    after.entryAt other = tree.entryAt other

/-- A file of this content at a location, and the directories that lead to it. -/
structure Written (tree : FileTree) (location : Location) (text : String) (after : FileTree) :
    Prop where
  file : after.entryAt location = some (.file text.toUTF8)
  above : ∀ other, other <+: location → other ≠ location → after.entryAt other = some .directory
  outside : ∀ other, ¬ other <+: location → after.entryAt other = tree.entryAt other

/-- Why an entry stops a file from being written in a directory `front`: a file is on the way, so that
the parent cannot be made, or a directory is in its place. -/
inductive Stopped (tree : FileTree) (p : Path) (front : Location) : Failure → Prop where
  | onTheWay {parent : Path} {fault : Fault} : p.parent? = some parent → ¬ tree.NoFileOn front →
      Stopped tree p front (.createParent parent fault)
  | inPlace {fault : Fault} : tree.NoFileOn front → tree.entryAt p.components = some .directory →
      Stopped tree p front (.write p fault)

section

variable {tree : FileTree} (hroot : tree.entryAt [] = some .directory) {p : Path} (hplain : p.Plain)
include hroot hplain

theorem clearDirectory_outcome (hcomponents : p.components ≠ []) :
    Outcome Failure.isAboutEntries (tree.NoFileOn p.components) (Cleared tree p.components)
      (tree.perform (clearDirectory p)) := by
  rw [perform_clearDirectory]
  by_cases hexists : tree.exists p = true
  · rw [if_pos hexists]
    refine Outcome.andThen (.remove p) (fun _ => rfl) id (fun removed hfree hremoved => ?_)
      (removeAll_outcome hroot hplain hcomponents hexists)
    have hkept : ∀ other, ¬ p.components <+: other →
        removed.entryAt other = tree.entryAt other := by
      intro other hother
      rw [hremoved, if_neg hother]
    have hrootRemoved : removed.entryAt [] = some .directory := by
      rw [hkept [] fun h => hcomponents (List.prefix_nil.mp h), hroot]
    have hfreeRemoved : removed.NoFileOn p.components := by
      intro front hne hfront content hfile
      rw [hremoved] at hfile
      split_ifs at hfile
      exact hfree front hne hfront content hfile
    rw [perform_createDirectories]
    refine (Outcome.failingAs (.create p) (fun _ => rfl)
      (createDirectories_outcome removed hrootRemoved hplain)).imp (fun _ => hfreeRemoved) fun after _ hprovided => ⟨hfree, ?_⟩
    refine ⟨hprovided.above, ?_, ?_⟩
    · intro other hbelow hne
      rw [hprovided.outside other (not_below_of_below hbelow hne), hremoved, if_pos hbelow]
    · intro other habove hbelow
      rw [hprovided.outside other habove, hkept other hbelow]
  · rw [if_neg hexists]
    dsimp only
    rw [perform_createDirectories]
    refine (Outcome.failingAs (.create p) (fun _ => rfl)
      (createDirectories_outcome tree hroot hplain)).imp id fun after hfree hprovided => ⟨hfree, ?_⟩
    have hnone : tree.entryAt p.components = none := by
      refine (hprovided.before hcomponents).resolve_left fun hdirectory => hexists ?_
      obtain ⟨location, hlocate, -⟩ := (isDirectory_iff tree p).mp hdirectory
      rw [«exists», hlocate]
      rfl
    refine ⟨hprovided.above, ?_, ?_⟩
    · intro other hbelow hne
      rw [hprovided.outside other (not_below_of_below hbelow hne),
        entryAt_eq_none_of_above hbelow hnone]
    · intro other habove _
      rw [hprovided.outside other habove]

section WriteFile

variable {front : List String} {last : String} (hcomponents : p.components = front ++ [last])
  (hslash : p.endsInSlash = false) (text : String)
include hcomponents hslash

theorem writeText_outcome (hfront : tree.entryAt front = some .directory) :
    Outcome Failure.isAboutEntries (tree.entryAt p.components ≠ some .directory)
      (fun after => ∀ other, after.entryAt other =
        if other = p.components then some (.file text.toUTF8) else tree.entryAt other)
      (tree.perform (failingAs (.write p) (Storage.writeText p text))) := by
  rw [perform_writeText]
  rcases hwrite : tree.write p text.toUTF8 with fault | written
  · dsimp only
    obtain ⟨before, hsteps, -⟩ := hplain.steps_eq_concat hcomponents
    have hlast : p.steps.getLast? = some last := by rw [hsteps, List.getLast?_concat]
    obtain ⟨-, hdot, hdots⟩ := hplain.names last (by simp [hcomponents])
    rcases fault?_cases p (hplain.text_ne_empty (by simp [hcomponents])) with
      hfault | ⟨other, hfault, habout⟩
    · rw [FileTree.write, hfault, hlast] at hwrite
      dsimp only at hwrite
      rcases lookUpParent_cases hroot hplain hcomponents with
        ⟨entries, hparent, hfind⟩ | ⟨-, hnone, -⟩ | ⟨-, hfile⟩ | hparent
      · rw [hparent] at hwrite
        dsimp only at hwrite
        rw [if_neg (by simp [hdot, hdots, hslash])] at hwrite
        split_ifs at hwrite
        · cases hwrite
          exact .refused rfl
        · rw [hcomponents, entryAt_concat hfind]
          rcases hlookup : entries.lookup last with _ | content | inner
          · rw [hlookup] at hwrite
            cases hwrite
          · rw [hlookup] at hwrite
            cases hwrite
          · exact .blocked fun hplace => hplace rfl
      · rw [hfront] at hnone
        cases hnone
      · exact absurd (noFileOn_of_directory hfront) hfile
      · rw [hparent] at hwrite
        cases hwrite
        exact .refused rfl
    · rw [FileTree.write, hfault] at hwrite
      cases hwrite
      exact .refused habout
  · obtain ⟨hplace, hentry, -⟩ := write_ok hwrite
    rw [hplain.target_eq] at hplace hentry
    exact .done hplace hentry

theorem writeFile_outcome :
    Outcome Failure.isAboutEntries
      (tree.NoFileOn front ∧ tree.entryAt p.components ≠ some .directory)
      (Written tree p.components text) (tree.perform (writeFile p text)) := by
  obtain ⟨parent, hparent, hplainParent, hparentComponents⟩ := hplain.exists_parent hcomponents
  rw [perform_writeFile_of_parent tree text hparent]
  have hcreate := createDirectories_outcome tree hroot hplainParent
  rw [hparentComponents] at hcreate
  refine Outcome.andThen (.createParent parent) (fun _ => rfl) And.left
    (fun ready hfree hready => ?_) hcreate
  have habove := hready.above
  have houtside := hready.outside
  rw [hparentComponents] at habove houtside
  have hproper : ¬ p.components <+: front := by
    rw [hcomponents]
    exact not_above_of_concat List.prefix_rfl
  refine (writeText_outcome (habove [] List.nil_prefix) hplain hcomponents hslash text
    (habove front List.prefix_rfl)).imp (fun hbefore => ?_) fun after hplace hwritten => ?_
  · rw [houtside _ hproper]
    exact hbefore.2
  · rw [houtside _ hproper] at hplace
    refine ⟨⟨hfree, hplace⟩, by rw [hwritten, if_pos rfl], ?_, ?_⟩
    · intro other hother hne
      rw [hwritten, if_neg hne]
      rw [hcomponents] at hother hne
      exact habove other ((List.prefix_concat_iff.mp hother).resolve_left hne)
    · intro other hother
      have hne : other ≠ p.components := fun h => hother (h ▸ List.prefix_rfl)
      rw [hwritten, if_neg hne, houtside]
      intro h
      apply hother
      rw [hcomponents]
      exact h.trans (List.prefix_append front [last])

/-- A write that an entry stops leaves the tree as it was: what stops it has been there before, and
then there is nothing to make on the way either. -/
theorem writeFile_stopped {failure : Failure} {after : FileTree}
    (hwrite : tree.perform (writeFile p text) = (.error failure, after))
    (habout : failure.isAboutEntries = true) : after = tree ∧ Stopped tree p front failure := by
  obtain ⟨parent, hparent, hplainParent, hparentComponents⟩ := hplain.exists_parent hcomponents
  rw [perform_writeFile_of_parent tree text hparent] at hwrite
  have hcreate := createDirectories_outcome tree hroot hplainParent
  have hunchanged := createDirectories_unchanged hroot hplainParent
  rw [hparentComponents] at hcreate hunchanged
  rcases hcreated : tree.createDirectories parent with ⟨fault | _, ready⟩
  · rw [hcreated] at hwrite hcreate hunchanged
    cases hwrite
    cases hcreate with
    | blocked hfile => exact ⟨hunchanged (Or.inr hfile), .onTheWay hparent hfile⟩
    | refused hrefused =>
        rw [Failure.isAboutEntries, Failure.fault?] at habout
        exact absurd habout (by simp [hrefused])
  · rw [hcreated] at hwrite hcreate hunchanged
    cases hcreate with
    | done hfree hready =>
        have hproper : ¬ p.components <+: parent.components := by
          rw [hparentComponents, hcomponents]
          exact not_above_of_concat List.prefix_rfl
        have hfront := hready.above front (hparentComponents ▸ List.prefix_rfl)
        have houtcome := writeText_outcome (hready.above [] List.nil_prefix) hplain hcomponents hslash
          text hfront
        dsimp only at hwrite
        rw [hwrite] at houtcome
        cases houtcome with
        | blocked hplace =>
            have hdirectory := not_not.mp hplace
            rw [hready.outside _ hproper] at hdirectory
            have habove : tree.entryAt front = some .directory := by
              refine directory_above ?_ hdirectory
              rw [hcomponents]
              exact List.prefix_append front [last]
            have hready : ready = tree := hunchanged (Or.inl habove)
            rw [perform_writeText] at hwrite
            rcases hput : ready.write p text.toUTF8 with fault | written
            · rw [hput] at hwrite
              cases hwrite
              exact ⟨hready, .inPlace hfree hdirectory⟩
            · rw [hput] at hwrite
              cases hwrite
        | refused hrefused =>
            rw [habout] at hrefused
            cases hrefused

end WriteFile

end

end EntityClasses
