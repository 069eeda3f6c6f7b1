import EntityClasses.Proofs.FileTree.Outcome

/-! Removing a directory along a plain path. Its entries are emptied before the directory itself goes,
but the directory around it is not touched, so the second step finds what the first one found. -/

namespace EntityClasses

namespace FileTree

variable {tree : FileTree} {p : Path}

/-- What a path that exists leads to, if it is plain. -/
theorem locate_of_exists (hplain : p.Plain) (hexists : tree.exists p = true) :
    tree.locate p = .ok p.components := by
  rw [«exists»] at hexists
  rcases hlocate : tree.locate p with fault | location
  · rw [hlocate] at hexists
    cases hexists
  · rw [eq_target_of_locate hlocate, hplain.target_eq]

/-- Removing an empty directory is only refused where a look-up is. -/
theorem removeEmpty_cases (hroot : tree.entryAt [] = some .directory) (hplain : p.Plain)
    {front : List String} {last : String} (hcomponents : p.components = front ++ [last])
    (hfront : tree.entryAt front = some .directory) :
    tree.removeEmpty p = .ok (tree.erase front last) ∨
      tree.removeEmpty p = .error .nameTooLong := by
  obtain ⟨before, hsteps, -⟩ := hplain.steps_eq_concat hcomponents
  have hlast : p.steps.getLast? = some last := by rw [hsteps, List.getLast?_concat]
  obtain ⟨-, hdot, hdots⟩ := hplain.names last (by simp [hcomponents])
  rw [removeEmpty, hlast]
  dsimp only
  rcases lookUpParent_cases hroot hplain hcomponents with
    ⟨entries, hparent, -⟩ | ⟨-, hnone, -⟩ | ⟨-, hfile⟩ | hparent
  · rw [hparent]
    dsimp only
    rw [if_neg hdot, if_neg hdots]
    exact Or.inl rfl
  · rw [hfront] at hnone
    cases hnone
  · exact absurd (noFileOn_of_directory hfront) hfile
  · rw [hparent]
    exact Or.inr rfl

/-- A directory that has been removed is gone with all that was in it; nothing else has changed. -/
theorem removeAll_outcome (hroot : tree.entryAt [] = some .directory) (hplain : p.Plain)
    (hcomponents : p.components ≠ []) (hexists : tree.exists p = true) :
    Outcome Fault.isAboutEntries (tree.NoFileOn p.components)
      (fun after => ∀ other, after.entryAt other =
        if p.components <+: other then none else tree.entryAt other) (tree.removeAll p) := by
  have hlocate := locate_of_exists hplain hexists
  rw [removeAll, hlocate]
  dsimp only
  rcases hfind : tree.find? p.components with _ | content | entries
  · rw [locate_eq_ok_iff] at hlocate
    have hsome := entryAt_of_walk (by rw [hroot]; exact Option.some_ne_none _) hlocate.2
    exact absurd ((entryAt_eq_none_iff _ _).mpr hfind) hsome
  · apply Outcome.blocked
    intro hfree
    exact hfree p.components hcomponents List.prefix_rfl content
      ((entryAt_eq_file_iff _ _ _).mpr hfind)
  · have hdirectory : tree.entryAt p.components = some .directory :=
      (entryAt_eq_directory_iff _ _).mpr ⟨entries, hfind⟩
    have hemptied := entryAt_emptied hdirectory
    obtain ⟨front, last, hnames⟩ := (List.eq_nil_or_concat' _).resolve_left hcomponents
    have habove : ∀ other, other <+: front →
        (tree.modify (fun _ => .directory []) p.components).entryAt other = some .directory := by
      intro other hother
      have hproper : ¬ p.components <+: other := by
        rw [hnames]
        exact fun h => not_above_of_concat h hother
      have hne : other ≠ p.components := fun h => hproper (h ▸ List.prefix_rfl)
      rw [hemptied, if_neg hne, if_neg hproper]
      exact directory_above (hother.trans (hnames ▸ List.prefix_append front [last])) hdirectory
    dsimp only
    rcases removeEmpty_cases (habove [] List.nil_prefix) hplain hnames
      (habove front List.prefix_rfl) with hremove | hremove
    · rw [hremove]
      refine .done (noFileOn_of_directory hdirectory) ?_
      intro other
      rw [entryAt_erase (habove front List.prefix_rfl), hemptied, ← hnames]
      split_ifs with hbelow heq
      · rfl
      · exact absurd (heq ▸ List.prefix_rfl) hbelow
      · rfl
    · rw [hremove]
      exact .refused rfl

end FileTree

end EntityClasses
