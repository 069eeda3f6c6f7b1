import Mathlib.Data.List.Basic
import EntityClasses.Text.Lines

/-! Lines of a text. A line that holds no newline and is ended by one is read back as it was written,
whatever follows it. -/

namespace EntityClasses

namespace Text

variable {line : List Char}

theorem pieces_append (hline : '\n' ∉ line) (rest : List Char) :
    pieces (line ++ '\n' :: rest) = (line ++ ['\n']) :: pieces rest := by
  induction line with
  | nil => rfl
  | cons c cs ih =>
      rw [List.mem_cons, not_or] at hline
      rw [List.cons_append, pieces, if_neg (Ne.symm hline.1), ih hline.2]
      rfl

theorem withoutEnding_append (hreturn : line.getLast? ≠ some '\r') :
    withoutEnding (line ++ ['\n']) = line := by
  have hreverse : (line ++ ['\n']).reverse = '\n' :: line.reverse := by simp
  rw [withoutEnding, hreverse]
  rw [← List.head?_reverse] at hreturn
  split
  · next rest heq =>
      rw [List.cons.injEq] at heq
      rw [heq.2] at hreturn
      exact absurd rfl hreturn
  · next rest _ heq =>
      rw [List.cons.injEq] at heq
      rw [← heq.2, List.reverse_reverse]
  · next hother => exact absurd rfl (hother line.reverse)

theorem lines_append (hline : '\n' ∉ line) (hreturn : line.getLast? ≠ some '\r') (rest : List Char) :
    lines (line ++ '\n' :: rest) = line :: lines rest := by
  rw [lines, pieces_append hline, List.map_cons, withoutEnding_append hreturn, lines]

theorem pieces_of_notMem (hline : '\n' ∉ line) (hne : line ≠ []) : pieces line = [line] := by
  induction line with
  | nil => exact absurd rfl hne
  | cons c cs ih =>
      rw [List.mem_cons, not_or] at hline
      rw [pieces, if_neg (Ne.symm hline.1)]
      cases cs with
      | nil => rfl
      | cons d ds => rw [ih hline.2 (List.cons_ne_nil d ds)]

theorem withoutEnding_of_notMem (hline : '\n' ∉ line) : withoutEnding line = line := by
  have hreverse : '\n' ∉ line.reverse := by rwa [List.mem_reverse]
  rw [withoutEnding]
  split
  · next rest heq => exact absurd (heq ▸ List.mem_cons_self) hreverse
  · next rest _ heq => exact absurd (heq ▸ List.mem_cons_self) hreverse
  · rfl

theorem lines_of_notMem (hline : '\n' ∉ line) (hne : line ≠ []) : lines line = [line] := by
  rw [lines, pieces_of_notMem hline hne, List.map_singleton, withoutEnding_of_notMem hline]

/-- Every line of a text is ended by a newline. -/
def IsEnded (s : List Char) : Prop :=
  s = [] ∨ s.getLast? = some '\n'

instance (s : List Char) : Decidable (IsEnded s) :=
  inferInstanceAs (Decidable (s = [] ∨ s.getLast? = some '\n'))

theorem isEnded_append_iff (line rest : List Char) : IsEnded (line ++ '\n' :: rest) ↔ IsEnded rest := by
  have hlast : (line ++ '\n' :: rest).getLast? = some (rest.getLast?.getD '\n') := by
    rw [List.getLast?_append_of_ne_nil _ (List.cons_ne_nil _ _), List.getLast?_cons]
  rw [IsEnded, IsEnded, hlast]
  rcases List.eq_nil_or_concat' rest with rfl | ⟨front, last, rfl⟩
  · simp
  · simp

theorem not_isEnded_of_notMem (hline : '\n' ∉ line) (hne : line ≠ []) : ¬ IsEnded line := by
  rintro (hnil | hlast)
  · exact hne hnil
  · exact hline (List.mem_of_getLast? hlast)

/-- Lines, each with its newline. -/
def unlines (written : List String) : String :=
  String.join (written.map (· ++ "\n"))

theorem unlines_append (written others : List String) :
    unlines (written ++ others) = unlines written ++ unlines others := by
  rw [unlines, List.map_append, String.join_append]
  rfl

theorem toList_unlines (written : List String) :
    (unlines written).toList = written.flatMap fun line => line.toList ++ ['\n'] := by
  simp [unlines, String.toList_join, List.flatMap_map]

theorem pieces_append_newline (s rest : List Char) :
    pieces (s ++ '\n' :: rest) = pieces (s ++ ['\n']) ++ pieces rest := by
  induction s with
  | nil => rfl
  | cons c cs ih =>
      rw [List.cons_append, List.cons_append, pieces, pieces, ih]
      by_cases hc : c = '\n'
      · rw [if_pos hc, if_pos hc, List.cons_append]
      · rw [if_neg hc, if_neg hc]
        cases hpieces : pieces (cs ++ ['\n']) with
        | nil =>
            have hflatten := flatten_pieces (cs ++ ['\n'])
            simp [hpieces] at hflatten
        | cons piece rest => rfl

/-- A text is read line by line behind lines that are ended, whatever these hold. -/
theorem lines_unlines_append (written : List String) (rest : List Char) :
    lines ((unlines written).toList ++ rest) = lines (unlines written).toList ++ lines rest := by
  rcases List.eq_nil_or_concat' written with rfl | ⟨front, last, rfl⟩
  · rfl
  · have hended : (unlines (front ++ [last])).toList =
        ((unlines front).toList ++ last.toList) ++ ['\n'] := by
      rw [toList_unlines, toList_unlines]
      simp
    rw [hended, List.append_assoc, List.singleton_append, lines, lines, lines,
      pieces_append_newline, List.map_append]

/-- A line that is read as it was written, once it is ended. -/
structure IsLine (line : String) : Prop where
  newline : '\n' ∉ line.toList
  ending : line.toList.getLast? ≠ some '\r'

instance (line : String) : Decidable (IsLine line) :=
  decidable_of_iff ('\n' ∉ line.toList ∧ line.toList.getLast? ≠ some '\r')
    ⟨fun h => ⟨h.1, h.2⟩, fun h => ⟨h.newline, h.ending⟩⟩

theorem IsLine.append {front rest : String} (hfront : '\n' ∉ front.toList) (hrest : IsLine rest)
    (hne : rest.toList ≠ []) : IsLine (front ++ rest) := by
  constructor
  · rw [String.toList_append, List.mem_append, not_or]
    exact ⟨hfront, hrest.newline⟩
  · rw [String.toList_append, List.getLast?_append_of_ne_nil _ hne]
    exact hrest.ending

theorem lines_unlines {written : List String} (hlines : ∀ line ∈ written, IsLine line) :
    lines (unlines written).toList = written.map String.toList := by
  rw [toList_unlines]
  induction written with
  | nil => rfl
  | cons line written ih =>
      rw [List.forall_mem_cons] at hlines
      rw [List.flatMap_cons, List.append_assoc, List.singleton_append,
        lines_append hlines.1.newline hlines.1.ending, ih hlines.2, List.map_cons]

theorem intercalate_concat (front : List String) (last : String) :
    "\n".intercalate (front ++ [last]) = unlines front ++ last := by
  induction front with
  | nil => simp [unlines]
  | cons line front ih =>
      obtain ⟨next, rest, hrest⟩ := List.exists_cons_of_ne_nil
        (show front ++ [last] ≠ [] by simp)
      rw [hrest] at ih
      rw [List.cons_append, hrest, String.intercalate_cons_cons, ih]
      simp [unlines, String.append_assoc]

/-- Lines with a newline between neighbours only. An empty last line would be missed. -/
theorem lines_intercalate {front : List String} {last : String} (hfront : ∀ line ∈ front, IsLine line)
    (hlast : '\n' ∉ last.toList) (hne : last ≠ "") :
    lines ("\n".intercalate (front ++ [last])).toList = (front ++ [last]).map String.toList := by
  rw [intercalate_concat, String.toList_append, lines_unlines_append, lines_unlines hfront,
    lines_of_notMem hlast (by rwa [Ne, String.toList_eq_nil_iff])]
  simp

end Text

end EntityClasses
