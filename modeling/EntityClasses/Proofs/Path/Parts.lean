import Mathlib.Data.List.Infix
import EntityClasses.Path

/-! The parts of a path. Cutting at slashes undoes joining with slashes, so what is put together from
parts, by joining two paths or by writing parts with slashes between them, has the parts one expects. -/

namespace EntityClasses

namespace Text

variable (sep : Char)

theorem partsAt_append (front rest : List Char) :
    partsAt sep (front ++ sep :: rest) = partsAt sep front ++ partsAt sep rest := by
  induction front with
  | nil => simp [partsAt]
  | cons c cs ih =>
      rw [List.cons_append, partsAt, partsAt, ih]
      by_cases hsep : c = sep
      · rw [if_pos hsep, if_pos hsep, List.cons_append]
      · rw [if_neg hsep, if_neg hsep]
        obtain ⟨part, parts, hparts⟩ := List.exists_cons_of_ne_nil (partsAt_ne_nil sep cs)
        rw [hparts]
        rfl

theorem partsAt_of_not_mem {s : List Char} (hsep : sep ∉ s) : partsAt sep s = [s] := by
  induction s with
  | nil => rfl
  | cons c cs ih =>
      rw [List.mem_cons, not_or] at hsep
      rw [partsAt, if_neg (Ne.symm hsep.1), ih hsep.2]

theorem not_mem_of_mem_partsAt {s part : List Char} (hpart : part ∈ partsAt sep s) :
    sep ∉ part := by
  induction s generalizing part with
  | nil => simp [List.mem_singleton.mp hpart]
  | cons c cs ih =>
      rw [partsAt] at hpart
      by_cases hsep : c = sep
      · rw [if_pos hsep, List.mem_cons] at hpart
        rcases hpart with rfl | hrest
        · simp
        · exact ih hrest
      · obtain ⟨first, parts, hparts⟩ := List.exists_cons_of_ne_nil (partsAt_ne_nil sep cs)
        rw [if_neg hsep, hparts, List.mem_cons] at hpart
        rw [hparts] at ih
        rcases hpart with rfl | hrest
        · have hfirst : sep ∉ first := ih List.mem_cons_self
          simp [hfirst, Ne.symm hsep]
        · exact ih (List.mem_cons_of_mem _ hrest)

end Text

namespace Path

theorem parts_ne_nil (p : Path) : p.parts ≠ [] := by
  rw [parts, Ne, List.map_eq_nil_iff]
  exact Text.partsAt_ne_nil '/' p.text.toList

theorem slash_notMem_of_mem_parts {p : Path} {part : String} (hpart : part ∈ p.parts) :
    '/' ∉ part.toList := by
  obtain ⟨chars, hchars, rfl⟩ := List.mem_map.mp hpart
  rw [String.toList_ofList]
  exact Text.not_mem_of_mem_partsAt '/' hchars

theorem parts_append (front rest : String) :
    (⟨front ++ "/" ++ rest⟩ : Path).parts = (⟨front⟩ : Path).parts ++ (⟨rest⟩ : Path).parts := by
  have htext : (front ++ "/" ++ rest).toList = front.toList ++ '/' :: rest.toList := by simp
  rw [parts, htext, Text.partsAt_append, List.map_append]
  rfl

theorem parts_intercalate (first : String) (rest : List String)
    (hslash : ∀ part ∈ first :: rest, '/' ∉ part.toList) :
    (⟨"/".intercalate (first :: rest)⟩ : Path).parts = first :: rest := by
  induction rest generalizing first with
  | nil =>
      rw [String.intercalate_singleton, parts,
        Text.partsAt_of_not_mem '/' (hslash first List.mem_cons_self)]
      simp
  | cons next rest ih =>
      have hfirst := ih first
      rw [String.intercalate_cons_cons, parts_append, ih next fun part hpart =>
        hslash part (List.mem_cons_of_mem _ hpart)]
      have hsingle : (⟨first⟩ : Path).parts = [first] := by
        rw [parts, Text.partsAt_of_not_mem '/' (hslash first List.mem_cons_self)]
        simp
      rw [hsingle, List.singleton_append]

/-- The first part is empty where nothing is written in front of the first slash. -/
theorem head?_parts_eq_empty_iff (p : Path) :
    p.parts.head? = some "" ↔ p.text = "" ∨ p.isAbsolute = true := by
  rw [parts, isAbsolute, decide_eq_true_eq, ← String.toList_eq_nil_iff]
  cases p.text.toList with
  | nil => simp [Text.partsAt]
  | cons c cs =>
      rw [Text.partsAt]
      by_cases hsep : c = '/'
      · simp [hsep]
      · obtain ⟨part, parts, hparts⟩ := List.exists_cons_of_ne_nil (Text.partsAt_ne_nil '/' cs)
        rw [if_neg hsep, hparts]
        simp [hsep, ← String.toList_inj]

theorem components_of_text_empty {p : Path} (htext : p.text = "") : p.components = [] := by
  rw [show p = ⟨""⟩ from congrArg Path.mk htext]
  rfl

section Join

variable {base p : Path}

/-- From the empty path every path is itself. -/
theorem join_of_text_empty (hbase : base.text = "") : base.join p = p := by
  have htext : base.text ++ p.text = p.text := by rw [hbase, String.empty_append]
  rw [join, hbase]
  by_cases habsolute : p.isAbsolute = true
  · rw [if_pos habsolute]
  · rw [if_neg habsolute, if_pos (by simp), ← hbase, htext]

/-- Joining only puts parts together: parts that are kept stay in their order, and an empty part that
a final slash leaves in the middle is not kept. -/
theorem filter_parts_join (hbase : base.text ≠ "") (hp : p.isAbsolute = false)
    {keep : String → Bool} (hkeep : keep "" = false) :
    (base.join p).parts.filter keep = base.parts.filter keep ++ p.parts.filter keep := by
  rw [join, if_neg (by simp [hp])]
  by_cases hslash : base.text.toList.getLast? = some '/'
  · rw [if_pos (by simp [hslash])]
    obtain ⟨front, hfront⟩ := List.getLast?_eq_some_iff.mp hslash
    have hbaseText : base = ⟨String.ofList front ++ "/" ++ ""⟩ := by
      rw [Path.mk.injEq, ← String.toList_inj, hfront]
      simp
    have htext : base.text ++ p.text = String.ofList front ++ "/" ++ p.text := by
      rw [← String.toList_inj, String.toList_append, hfront]
      simp
    have hempty : (⟨""⟩ : Path).parts.filter keep = [] := by simp [parts, Text.partsAt, hkeep]
    have hfiltered : base.parts.filter keep = (⟨String.ofList front⟩ : Path).parts.filter keep := by
      rw [hbaseText, parts_append, List.filter_append, hempty, List.append_nil]
    rw [htext, parts_append, List.filter_append, hfiltered]
  · rw [if_neg (by simp [hslash, hbase]), parts_append, List.filter_append]

theorem isAbsolute_join (hbase : base.text ≠ "") (hp : p.isAbsolute = false) :
    (base.join p).isAbsolute = base.isAbsolute := by
  obtain ⟨c, cs, htext⟩ := List.exists_cons_of_ne_nil
    (show base.text.toList ≠ [] by rwa [Ne, String.toList_eq_nil_iff])
  rw [join, if_neg (by simp [hp]), isAbsolute, isAbsolute]
  split_ifs <;> simp [htext]

theorem getLast?_text_join (base : Path) (hp : p.text ≠ "") :
    (base.join p).text.toList.getLast? = p.text.toList.getLast? := by
  have hne : p.text.toList ≠ [] := by rwa [Ne, String.toList_eq_nil_iff]
  rw [join]
  split_ifs
  · rfl
  · rw [String.toList_append, List.getLast?_append_of_ne_nil _ hne]
  · rw [String.toList_append, List.getLast?_append_of_ne_nil _ hne]

end Join

end Path

end EntityClasses
