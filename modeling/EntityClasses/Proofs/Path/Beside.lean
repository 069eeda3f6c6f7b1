import EntityClasses.Proofs.Path.Parts

/-! A file directly in a directory. A name without slashes is one component more than the directory has,
whatever the directory looks like, so two such paths are the same exactly when directory and name are. -/

namespace EntityClasses

namespace Path

theorem parts_of_slash_notMem {name : String} (hslash : '/' ∉ name.toList) :
    (⟨name⟩ : Path).parts = [name] := by
  rw [parts, Text.partsAt_of_not_mem '/' hslash]
  simp

theorem isAbsolute_of_slash_notMem {name : String} (hslash : '/' ∉ name.toList) :
    (⟨name⟩ : Path).isAbsolute = false := by
  rw [isAbsolute, decide_eq_false_iff_not]
  exact fun hhead => hslash (List.mem_of_head? hhead)

/-- Behind the first part stand those of the directory, but for an empty last one, and the name. -/
theorem exists_parts_join {directory : Path} (hdirectory : directory.text ≠ "") {name : String}
    (hslash : '/' ∉ name.toList) :
    ∃ first rest void, directory.parts = first :: (rest ++ void) ∧
      void.filter (!isVoid ·) = [] ∧
      (directory.join ⟨name⟩).parts = first :: (rest ++ [name]) := by
  rw [join, if_neg (by simp [isAbsolute_of_slash_notMem hslash])]
  by_cases hlast : directory.text.toList.getLast? = some '/'
  · rw [if_pos (by simp [hlast])]
    obtain ⟨front, hfront⟩ := List.getLast?_eq_some_iff.mp hlast
    have htext : directory.text = String.ofList front ++ "/" ++ "" := by
      rw [← String.toList_inj, hfront]
      simp
    obtain ⟨first, rest, hparts⟩ := List.exists_cons_of_ne_nil (parts_ne_nil ⟨String.ofList front⟩)
    refine ⟨first, rest, [""], ?_, rfl, ?_⟩
    · rw [show directory = ⟨String.ofList front ++ "/" ++ ""⟩ from congrArg Path.mk htext,
        parts_append, hparts, parts_of_slash_notMem (by simp)]
      rfl
    · rw [htext, String.append_empty, parts_append, hparts, parts_of_slash_notMem hslash]
      rfl
  · rw [if_neg (by simp [hlast, hdirectory])]
    obtain ⟨first, rest, hparts⟩ := List.exists_cons_of_ne_nil (parts_ne_nil directory)
    refine ⟨first, rest, [], by rw [hparts, List.append_nil], rfl, ?_⟩
    rw [parts_append, hparts, parts_of_slash_notMem hslash]
    rfl

theorem components_join_name (directory : Path) {name : String} (hslash : '/' ∉ name.toList)
    (hvoid : isVoid name = false) :
    (directory.join ⟨name⟩).components = directory.components ++ [name] := by
  have hrelative : (⟨name⟩ : Path).isAbsolute = false := isAbsolute_of_slash_notMem hslash
  have hname : name ≠ "" := by
    rintro rfl
    cases hvoid
  by_cases hdirectory : directory.text = ""
  · rw [join_of_text_empty hdirectory, components_of_text_empty hdirectory, components,
      parts_of_slash_notMem hslash]
    simp [hrelative, hname]
  · obtain ⟨first, rest, void, hparts, hfiltered, hjoined⟩ := exists_parts_join hdirectory hslash
    have hkept : [name].filter (!isVoid ·) = [name] := by simp [hvoid]
    rw [components, components, hparts, hjoined]
    dsimp only
    rw [isAbsolute_join hdirectory hrelative, List.filter_append, List.filter_append, hfiltered, hkept,
      List.append_nil]
    split_ifs <;> rfl

theorem same_join_name_iff {directory other : Path} {name otherName : String}
    (hslash : '/' ∉ name.toList) (hvoid : isVoid name = false)
    (hotherSlash : '/' ∉ otherName.toList) (hotherVoid : isVoid otherName = false) :
    (directory.join ⟨name⟩).Same (other.join ⟨otherName⟩) ↔
      directory.Same other ∧ name = otherName := by
  rw [Same, Same, components_join_name directory hslash hvoid,
    components_join_name other hotherSlash hotherVoid]
  simp

section SourceFiles

theorem slash_notMem_file {name : String} (hslash : '/' ∉ name.toList) :
    '/' ∉ (name ++ ".ts").toList := by
  simp [hslash]

theorem isVoid_file (name : String) : isVoid (name ++ ".ts") = false := by
  have hlength : 3 ≤ (name ++ ".ts").toList.length := by simp
  rw [isVoid, Bool.or_eq_false_iff, decide_eq_false_iff_not, decide_eq_false_iff_not]
  constructor <;> intro h <;> simp [h] at hlength

theorem same_file_iff {directory other name otherName : String} (hslash : '/' ∉ name.toList)
    (hotherSlash : '/' ∉ otherName.toList) :
    (Path.join ⟨directory⟩ ⟨name ++ ".ts"⟩).Same (Path.join ⟨other⟩ ⟨otherName ++ ".ts"⟩) ↔
      (⟨directory⟩ : Path).Same ⟨other⟩ ∧ name = otherName := by
  rw [same_join_name_iff (slash_notMem_file hslash) (isVoid_file name) (slash_notMem_file hotherSlash)
    (isVoid_file otherName), String.append_left_inj]

theorem same_index_iff (directory other : String) :
    (Path.join ⟨directory⟩ ⟨"index.ts"⟩).Same (Path.join ⟨other⟩ ⟨"index.ts"⟩) ↔
      (⟨directory⟩ : Path).Same ⟨other⟩ := by
  rw [same_join_name_iff (by decide) (by decide) (by decide) (by decide)]
  simp

end SourceFiles

end Path

end EntityClasses
