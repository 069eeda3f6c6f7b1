import EntityClasses.Proofs.FileTree.Outcome

/-! Making a directory and the directories that lead to it, along a plain path. When it is done, all of
them stand and nothing else has changed. The induction is on the components: where the parent is missing
it is made first, and making the directory itself is then a single step. -/

namespace EntityClasses

namespace FileTree

/-- What comes of making one directory, the last component of a path, in a directory `front`. -/
inductive Making (tree : FileTree) (p : Path) (front : Location) : Except Fault FileTree → Prop where
  | made {after : FileTree} : tree.entryAt front = some .directory →
      tree.entryAt p.components = none →
      (∀ other, after.entryAt other =
        if other = p.components then some .directory else tree.entryAt other) →
      Making tree p front (.ok after)
  | missing : tree.entryAt front = none → tree.NoFileOn front →
      Making tree p front (.error .notFound)
  | present {fault : Fault} : fault ≠ .notFound → tree.isDirectory p = true →
      Making tree p front (.error fault)
  | blocked {fault : Fault} : fault ≠ .notFound → ¬ tree.NoFileOn p.components →
      Making tree p front (.error fault)
  | refused {fault : Fault} : fault.isAboutEntries = false → Making tree p front (.error fault)

section MakeDirectory

variable {tree : FileTree} {p : Path}

theorem entryAt_of_isDirectory (hplain : p.Plain) (hdirectory : tree.isDirectory p = true) :
    tree.entryAt p.components = some .directory := by
  obtain ⟨location, hlocate, hentry⟩ := (isDirectory_iff tree p).mp hdirectory
  rw [eq_target_of_locate hlocate, hplain.target_eq] at hentry
  exact hentry

theorem fault?_cases (p : Path) (htext : p.text ≠ "") :
    p.fault? = none ∨ ∃ fault, p.fault? = some fault ∧ fault.isAboutEntries = false := by
  rw [Path.fault?, if_neg htext]
  split_ifs
  · exact Or.inr ⟨_, rfl, rfl⟩
  · exact Or.inr ⟨_, rfl, rfl⟩
  · exact Or.inl rfl

theorem makeDirectory_making {front : List String} {last : String}
    (hroot : tree.entryAt [] = some .directory) (hplain : p.Plain)
    (hcomponents : p.components = front ++ [last]) :
    Making tree p front (tree.makeDirectory p) := by
  obtain ⟨before, hsteps, -⟩ := hplain.steps_eq_concat hcomponents
  have hlast : p.steps.getLast? = some last := by rw [hsteps, List.getLast?_concat]
  rcases fault?_cases p (hplain.text_ne_empty (by simp [hcomponents])) with
    hfault | ⟨fault, hfault, habout⟩
  · rw [makeDirectory, hfault, hlast]
    dsimp only
    rcases lookUpParent_cases hroot hplain hcomponents with
      ⟨entries, hparent, hfind⟩ | ⟨hparent, hnone, hfree⟩ | ⟨hparent, hfile⟩ | hparent
    · have hdirectory : tree.entryAt front = some .directory :=
        (entryAt_eq_directory_iff _ _).mpr ⟨entries, hfind⟩
      obtain ⟨-, hdot, hdots⟩ := hplain.names last (by simp [hcomponents])
      rw [hparent]
      dsimp only
      rw [if_neg (by simp [hdot, hdots]), isSome_lookup hfind, ← hcomponents]
      by_cases hlong : isTooLong last = true
      · rw [if_pos hlong]
        exact .refused rfl
      · rw [if_neg hlong]
        rcases hentry : tree.entryAt p.components with _ | content | _
        · refine .made hdirectory hentry ?_
          intro other
          rw [hcomponents] at hentry ⊢
          rw [entryAt_insert hdirectory (by simp [hentry]) fun _ _ => rfl]
          rfl
        · refine .blocked (by decide) ?_
          intro hfree
          exact hfree p.components (by simp [hcomponents]) List.prefix_rfl content hentry
        · obtain ⟨hwalk, -, -⟩ := lookUpParent_ok hparent
          rw [hsteps, List.dropLast_concat] at hwalk
          refine .present (by decide) (isDirectory_of_walk hfault ?_ hentry)
          rw [hcomponents] at hentry ⊢
          rw [hsteps]
          exact walk_concat hwalk hdirectory hdot hdots (by simpa using hlong) (by simp [hentry])
    · rw [hparent]
      exact .missing hnone hfree
    · rw [hparent]
      refine .blocked (by decide) fun hfree => hfile (hfree.above ?_)
      rw [hcomponents]
      exact List.prefix_append front [last]
    · rw [hparent]
      exact .refused rfl
  · rw [makeDirectory, hfault]
    exact .refused habout

end MakeDirectory

/-- The directory and all that lead to it stand; nothing else has changed. It stood before, or nothing
stood in its place. -/
structure Provided (tree : FileTree) (p : Path) (after : FileTree) : Prop where
  before : p.components ≠ [] → tree.isDirectory p = true ∨ tree.entryAt p.components = none
  above : ∀ other, other <+: p.components → after.entryAt other = some .directory
  outside : ∀ other, ¬ other <+: p.components → after.entryAt other = tree.entryAt other

theorem provided_of_isDirectory {tree : FileTree} {p : Path} (hplain : p.Plain)
    (hdirectory : tree.isDirectory p = true) : Provided tree p tree where
  before _ := Or.inl hdirectory
  above _ hother := directory_above hother (entryAt_of_isDirectory hplain hdirectory)
  outside _ _ := rfl

section CreateDirectories

variable {tree ready : FileTree} {p : Path} {front : List String} {last : String}
  (hcomponents : p.components = front ++ [last])
  (habove : ∀ other, other <+: front → ready.entryAt other = some .directory)
  (houtside : ∀ other, ¬ other <+: front → ready.entryAt other = tree.entryAt other)
include hcomponents habove houtside

/-- A directory made in a tree where the directories that lead to it have been provided for. -/
theorem provided_of_made {made : FileTree} (hnone : tree.entryAt p.components = none)
    (hmade : ∀ other, made.entryAt other =
      if other = p.components then some .directory else ready.entryAt other) :
    Provided tree p made := by
  refine ⟨fun _ => Or.inr hnone, ?_, ?_⟩
  · intro other hother
    rw [hmade]
    split_ifs with heq
    · rfl
    · rw [hcomponents] at hother heq
      exact habove other ((List.prefix_concat_iff.mp hother).resolve_left heq)
  · intro other hother
    have heq : other ≠ p.components := fun h => hother (h ▸ List.prefix_rfl)
    have hnotAbove : ¬ other <+: front := by
      intro h
      apply hother
      rw [hcomponents]
      exact h.trans (List.prefix_append front [last])
    rw [hmade, if_neg heq, houtside other hnotAbove]

/-- Making a directory once those that lead to it have been provided for: only a refusal is left to
stop it. -/
theorem making_of_provided (hplain : p.Plain) (hnone : tree.entryAt p.components = none) :
    (∃ made, ready.makeDirectory p = .ok made ∧ Provided tree p made) ∨
    ∃ fault, ready.makeDirectory p = .error fault ∧ ready.isDirectory p = false ∧
      fault.isAboutEntries = false := by
  have hroot : ready.entryAt [] = some .directory := habove [] List.nil_prefix
  have hdirectory : ready.entryAt front = some .directory := habove front List.prefix_rfl
  have hproper : ¬ p.components <+: front := by
    rw [hcomponents]
    exact not_above_of_concat List.prefix_rfl
  have hplace : ready.entryAt p.components = none := by
    rw [houtside p.components hproper, hnone]
  have hnotDirectory : ready.isDirectory p = false := by
    by_contra h
    rw [entryAt_of_isDirectory hplain (by simpa using h)] at hplace
    cases hplace
  have hmaking := makeDirectory_making hroot hplain hcomponents
  rcases hmake : ready.makeDirectory p with fault | made
  · rw [hmake] at hmaking
    refine Or.inr ⟨fault, rfl, hnotDirectory, ?_⟩
    cases hmaking with
    | missing hmissing =>
        rw [hdirectory] at hmissing
        cases hmissing
    | present _ hpresent =>
        rw [hnotDirectory] at hpresent
        cases hpresent
    | blocked _ hfile =>
        rw [hcomponents] at hfile hplace
        exact absurd (noFileOn_of_none (noFileOn_of_directory hdirectory) hplace []) hfile
    | refused habout => exact habout
  · rw [hmake] at hmaking
    cases hmaking with
    | made _ _ hmade =>
        exact Or.inl ⟨made, rfl, provided_of_made hcomponents habove houtside hnone hmade⟩

end CreateDirectories

section Missing

variable {tree : FileTree} {p parent : Path} {front : List String} {last : String}

/-- Where the parent is missing it is provided for first, and then the directory is made. -/
theorem createAll_outcome_of_missing (hplain : p.Plain) (hcomponents : p.components = front ++ [last])
    (hfront : parent.components = front) (hmissing : tree.makeDirectory p = .error .notFound)
    (hnone : tree.entryAt front = none) (hfree : tree.NoFileOn front)
    (hparent : Outcome Fault.isAboutEntries (tree.NoFileOn front) (Provided tree parent)
      (tree.createDirectories parent)) :
    Outcome Fault.isAboutEntries (tree.NoFileOn p.components) (Provided tree p)
      (createAll (p :: parent.ancestors) tree) := by
  rw [createDirectories] at hparent
  rcases hcreate : createAll parent.ancestors tree with ⟨fault | _, ready⟩
  · rw [hcreate] at hparent
    rw [createAll_of_missing_error _ hmissing hcreate]
    cases hparent with
    | blocked hfile => exact absurd hfree hfile
    | refused habout => exact .refused habout
  · rw [hcreate] at hparent
    cases hparent with
    | done _ hready =>
        have hplace : tree.entryAt (front ++ [last]) = none :=
          entryAt_eq_none_of_above (List.prefix_append front [last]) hnone
        have hfreePlace := noFileOn_of_none hfree hplace []
        rw [← hcomponents] at hplace hfreePlace
        rcases making_of_provided hcomponents (hfront ▸ hready.above) (hfront ▸ hready.outside)
          hplain hplace with ⟨made, hmake, hmade⟩ | ⟨fault, hmake, hdirectory, habout⟩
        · rw [createAll_of_missing_made _ hmissing hcreate hmake]
          exact .done hfreePlace hmade
        · rw [createAll_of_missing_fault _ hmissing hcreate hmake, hdirectory]
          exact .refused habout

end Missing

theorem createDirectories_outcome (tree : FileTree) (hroot : tree.entryAt [] = some .directory)
    {p : Path} (hplain : p.Plain) :
    Outcome Fault.isAboutEntries (tree.NoFileOn p.components) (Provided tree p)
      (tree.createDirectories p) := by
  induction hnames : p.components using List.reverseRecOn generalizing p with
  | nil =>
      have hcreate : tree.createDirectories p = (.ok (), tree) := by
        rw [createDirectories, Path.ancestors, hnames]
        rfl
      rw [hcreate]
      refine .done (noFileOn_of_directory hroot) ⟨fun hne => absurd hnames hne, ?_, fun _ _ => rfl⟩
      intro other hother
      rw [hnames, List.prefix_nil] at hother
      rw [hother, hroot]
  | append_singleton front last ih =>
      obtain ⟨parent, hparent, hplainParent, hfront⟩ := hplain.exists_parent hnames
      have hmaking := makeDirectory_making hroot hplain hnames
      rw [← hnames, createDirectories, Path.ancestors_eq hnames hparent hfront]
      rcases hmake : tree.makeDirectory p with fault | made
      · rw [hmake] at hmaking
        by_cases hmissing : fault = .notFound
        · subst hmissing
          cases hmaking with
          | present hfault _ | blocked hfault _ => exact absurd rfl hfault
          | refused habout => cases habout
          | missing hnone hfree =>
              exact createAll_outcome_of_missing hplain hnames hfront hmake hnone hfree
                (ih hplainParent hfront)
        · rw [createAll_of_fault _ hmake hmissing]
          by_cases hdirectory : tree.isDirectory p = true
          · rw [if_pos hdirectory]
            exact .done (noFileOn_of_directory (entryAt_of_isDirectory hplain hdirectory))
              (provided_of_isDirectory hplain hdirectory)
          · rw [if_neg hdirectory]
            cases hmaking with
            | missing => exact absurd rfl hmissing
            | present _ hpresent => exact absurd hpresent hdirectory
            | blocked _ hfile => exact .blocked hfile
            | refused habout => exact .refused habout
      · rw [hmake] at hmaking
        rw [createAll_of_made _ hmake]
        cases hmaking with
        | made hdirectory hnone hmade =>
            refine .done ?_ (provided_of_made hnames (fun _ hother => directory_above hother hdirectory)
              (fun _ _ => rfl) hnone hmade)
            rw [hnames] at hnone ⊢
            exact noFileOn_of_none (noFileOn_of_directory hdirectory) hnone []

/-- Where the directory stands, or a file stands in the way, nothing is made at all: the directories
that lead to it are made only after it has been found missing. -/
theorem createDirectories_unchanged {tree : FileTree} (hroot : tree.entryAt [] = some .directory)
    {p : Path} (hplain : p.Plain)
    (hstands : tree.entryAt p.components = some .directory ∨ ¬ tree.NoFileOn p.components) :
    (tree.createDirectories p).2 = tree := by
  rcases List.eq_nil_or_concat' p.components with hnames | ⟨front, last, hnames⟩
  · rw [createDirectories, Path.ancestors, hnames]
    rfl
  obtain ⟨parent, hparent, -, hfront⟩ := hplain.exists_parent hnames
  have hnothing : ¬ (tree.entryAt p.components = none ∧ tree.NoFileOn p.components) := by
    rintro ⟨hnone, hfree⟩
    rcases hstands with hdirectory | hfile
    · rw [hnone] at hdirectory
      cases hdirectory
    · exact hfile hfree
  have hmaking := makeDirectory_making hroot hplain hnames
  rw [createDirectories, Path.ancestors_eq hnames hparent hfront]
  rcases hmake : tree.makeDirectory p with fault | made
  · have hfault : fault ≠ .notFound := by
      rintro rfl
      rw [hmake] at hmaking
      cases hmaking with
      | missing hnone hfree =>
          have hplace : tree.entryAt (front ++ [last]) = none :=
            entryAt_eq_none_of_above (List.prefix_append front [last]) hnone
          have hfreePlace := noFileOn_of_none hfree hplace []
          rw [← hnames] at hplace hfreePlace
          exact hnothing ⟨hplace, hfreePlace⟩
      | present hfault _ | blocked hfault _ => exact hfault rfl
      | refused habout => cases habout
    rw [createAll_of_fault _ hmake hfault]
    split_ifs <;> rfl
  · rw [hmake] at hmaking
    cases hmaking with
    | made hdirectory hnone _ =>
        have hfree := noFileOn_of_none (noFileOn_of_directory hdirectory) (hnames ▸ hnone) []
        rw [← hnames] at hfree
        exact absurd ⟨hnone, hfree⟩ hnothing

end FileTree

end EntityClasses
