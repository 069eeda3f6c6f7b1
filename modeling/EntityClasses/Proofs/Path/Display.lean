import EntityClasses.Proofs.Path.Parts

/-! Paths as they are shown, by their components. The root is shown as a slash with one more slash behind
it, which is another spelling of it, so a path that is read back from what is shown is the path itself. -/

namespace EntityClasses

namespace Path

theorem slash_notMem_of_mem_named {p : Path} {first : String} {rest : List String}
    (hparts : p.parts = first :: rest) {part : String}
    (hpart : part ∈ first :: rest.filter (!isVoid ·)) : '/' ∉ part.toList := by
  refine slash_notMem_of_mem_parts (p := p) ?_
  rw [hparts]
  exact List.cons_subset_cons first List.filter_sublist.subset hpart

theorem same_display_of_absolute {p : Path} (habsolute : p.isAbsolute = true) :
    (⟨p.display⟩ : Path).Same p := by
  obtain ⟨first, rest, hparts⟩ := List.exists_cons_of_ne_nil p.parts_ne_nil
  have hcomponents : p.components = "/" :: rest.filter (!isVoid ·) := by
    rw [components, hparts]
    exact if_pos habsolute
  rw [Same, display, hcomponents]
  cases hnamed : rest.filter (!isVoid ·) with
  | nil => decide
  | cons name names =>
      have hslash : ∀ part ∈ name :: names, '/' ∉ part.toList := fun part hpart =>
        slash_notMem_of_mem_named hparts (List.mem_cons_of_mem first (hnamed ▸ hpart))
      have hshown : "/".intercalate ("/" :: name :: names) =
          "" ++ "/" ++ ("" ++ "/" ++ "/".intercalate (name :: names)) := by
        rw [String.intercalate_cons_cons, String.append_assoc]
        simp
      have hroot : (⟨"/".intercalate ("/" :: name :: names)⟩ : Path).isAbsolute = true := by
        rw [hshown, isAbsolute]
        simp
      have hempty : (⟨""⟩ : Path).parts = [""] := by decide
      have hkept : ("" :: name :: names).filter (!isVoid ·) = name :: names := by
        rw [List.filter_cons_of_neg (by decide), ← hnamed, List.filter_filter]
        simp
      rw [components, hshown, parts_append, parts_append, parts_intercalate name names hslash, hempty,
        ← hshown]
      exact (if_pos hroot).trans (congrArg ("/" :: ·) hkept)

theorem same_display_of_relative {p : Path} (hrelative : p.isAbsolute = false) :
    (⟨p.display⟩ : Path).Same p := by
  obtain ⟨first, rest, hparts⟩ := List.exists_cons_of_ne_nil p.parts_ne_nil
  by_cases hempty : first = ""
  · -- nothing stands in front of the first slash, so there is nothing at all
    have htext : p.text = "" := by
      have hhead := (head?_parts_eq_empty_iff p).mp (by rw [hparts, hempty]; rfl)
      simpa [hrelative] using hhead
    rw [show p = ⟨""⟩ from congrArg Path.mk htext]
    decide
  · have hcomponents : p.components = first :: rest.filter (!isVoid ·) := by
      rw [components, hparts]
      simp [hrelative, hempty]
    have hshown := parts_intercalate first (rest.filter (!isVoid ·)) fun part hpart =>
      slash_notMem_of_mem_named hparts hpart
    have hstart : (⟨"/".intercalate (first :: rest.filter (!isVoid ·))⟩ : Path).isAbsolute = false := by
      by_contra habsolute
      have hhead := (head?_parts_eq_empty_iff _).mpr (Or.inr (by simpa using habsolute))
      rw [hshown] at hhead
      exact hempty (Option.some.inj hhead)
    rw [Same, display, hcomponents, components, hshown]
    simp [hstart, hempty]

/-- A path that is shown and read again is the same path. -/
theorem same_display (p : Path) : (⟨p.display⟩ : Path).Same p := by
  cases habsolute : p.isAbsolute with
  | true => exact same_display_of_absolute habsolute
  | false => exact same_display_of_relative habsolute

theorem display_eq_iff {p q : Path} : p.display = q.display ↔ p.Same q := by
  constructor
  · intro hdisplay
    have hshown := same_display p
    rw [hdisplay] at hshown
    exact hshown.symm.trans (same_display q)
  · intro hsame
    rw [display, display, hsame]

example : (⟨"/a/./b"⟩ : Path).display = "//a/b" := by decide

end Path

end EntityClasses
