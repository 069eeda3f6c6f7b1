import EntityClasses.Proofs.Code.Lines
import EntityClasses.Proofs.Text.Position
import EntityClasses.TypeScript.SourceFile

/-! Text that stands in a source file as it is. It is cut into lines and the lines are written one by one, so
what comes out is the text with its last line ended, and a text that has no line to end stays as it is. A
carriage return in front of a newline is the only thing that would be lost on the way. -/

namespace EntityClasses

namespace Text

/-- A text with its last line ended. -/
def ended (s : List Char) : List Char :=
  if IsEnded s then s else s ++ ['\n']

theorem ended_append (line rest : List Char) : ended (line ++ '\n' :: rest) = line ++ '\n' :: ended rest := by
  rw [ended, ended, if_congr (isEnded_append_iff line rest) rfl rfl]
  split_ifs
  · rfl
  · rw [List.append_assoc, List.cons_append]

theorem ended_of_notMem {line : List Char} (hline : '\n' ∉ line) (hne : line ≠ []) :
    ended line = line ++ ['\n'] :=
  if_neg (not_isEnded_of_notMem hline hne)

theorem ended_ended (s : List Char) : ended (ended s) = ended s := by
  have hended : IsEnded (ended s) := by
    rw [ended]
    split_ifs with hs
    · exact hs
    · exact Or.inr List.getLast?_concat
  exact if_pos hended

theorem return_notMem_ended {s : List Char} (hreturn : '\r' ∉ s) : '\r' ∉ ended s := by
  rw [ended]
  split_ifs
  · exact hreturn
  · simpa using hreturn

/-- The lines of a text, written one by one, are the text with its last line ended. -/
theorem unlines_lines {s : List Char} (hreturn : '\r' ∉ s) :
    unlines ((lines s).map String.ofList) = String.ofList (ended s) := by
  induction s using lines_induction with
  | last line hline =>
      by_cases hne : line = []
      · subst hne
        rfl
      · rw [lines_of_notMem hline hne, ended_of_notMem hline hne]
        simp [unlines]
  | next line rest hline ih =>
      rw [List.mem_append, List.mem_cons, not_or, not_or] at hreturn
      have hending : line.getLast? ≠ some '\r' := fun h => hreturn.1 (List.mem_of_getLast? h)
      rw [lines_append hline hending, List.map_cons, ended_append, ← List.singleton_append,
        unlines_append, ih hreturn.2.2]
      simp [unlines, ← String.toList_inj]

end Text

namespace TypeScript.SourceFile

open Code Text

variable (indent : Indent)

theorem renderWith_body (fragments : List Fragment) :
    renderWith indent { body := [fragments] } = unlines (Fragment.linesOf indent 0 fragments) := by
  rw [renderWith, render_eq_unlines]
  simp [groups, statementGroup, Fragment.separated]

theorem renderWith_ofText {text : String} (hreturn : '\r' ∉ text.toList) :
    renderWith indent { body := [Fragment.ofText text] } = String.ofList (ended text.toList) := by
  rw [renderWith_body, Fragment.linesOf_ofText, unlines_lines hreturn]

/-- **Raw text passes through.** A file that holds nothing but a text without carriage returns is that text,
with its last line ended if it has one that is not, and to render it again changes nothing; and lines, of
which only the last one must not be empty, are rendered one by one, each with its newline. -/
theorem render_raw :
    (∀ (indent : Indent) (text : String), '\r' ∉ text.toList →
      renderWith indent { body := [Fragment.ofText text] } =
        (if text = "" ∨ text.toList.getLast? = some '\n' then text else text ++ "\n") ∧
      renderWith indent { body := [Fragment.ofText
        (renderWith indent { body := [Fragment.ofText text] })] } =
        renderWith indent { body := [Fragment.ofText text] }) ∧
    ∀ (indent : Indent) (written : List String), written ≠ [] →
      (∀ line ∈ written, '\n' ∉ line.toList ∧ '\r' ∉ line.toList) → written.getLast? ≠ some "" →
      renderWith indent { body := [Fragment.ofLines written] } = unlines written := by
  refine ⟨fun indent text hreturn => ⟨?_, ?_⟩, fun indent written hne hwritten hlast => ?_⟩
  · rw [renderWith_ofText indent hreturn, ended]
    simp only [IsEnded, String.toList_eq_nil_iff]
    split_ifs <;> simp
  · have hended : '\r' ∉ (String.ofList (ended text.toList)).toList := by
      rw [String.toList_ofList]
      exact return_notMem_ended hreturn
    rw [renderWith_ofText indent hreturn, renderWith_ofText indent hended, String.toList_ofList, ended_ended]
  · obtain ⟨front, last, rfl⟩ := (List.eq_nil_or_concat' written).resolve_left hne
    rw [List.forall_mem_append, List.forall_mem_singleton] at hwritten
    have hfront : ∀ line ∈ front, IsLine line := fun line hline =>
      ⟨(hwritten.1 line hline).1, fun h => (hwritten.1 line hline).2 (List.mem_of_getLast? h)⟩
    have hlast : last ≠ "" := by simpa using hlast
    rw [renderWith_body, Fragment.ofLines, Fragment.linesOf_ofText,
      lines_intercalate hfront hwritten.2.1 hlast]
    simp

/-- Leading, inner and trailing empty lines stay, and so do blanks in front of a line. -/
theorem render_raw_emptyLines :
    '\r' ∉ "\n\n  a\n\nb\n\n".toList ∧
    renderWith .standard { body := [Fragment.ofText "\n\n  a\n\nb\n\n"] } = "\n\n  a\n\nb\n\n" ∧
    renderWith .tab { body := [Fragment.ofText "\n  a"] } = "\n  a\n" ∧
    renderWith .tab { body := [Fragment.ofText "\n  a\n"] } = "\n  a\n" ∧
    (∀ line ∈ ["", "  a", "", "b"], '\n' ∉ line.toList ∧ '\r' ∉ line.toList) ∧
    ["", "  a", "", "b"].getLast? ≠ some "" ∧
    renderWith .standard { body := [Fragment.ofLines ["", "  a", "", "b"]] } = "\n  a\n\nb\n" := by
  have hreturn : '\r' ∉ "\n\n  a\n\nb\n\n".toList := by decide +kernel
  have hshort : '\r' ∉ "\n  a".toList := by decide +kernel
  have hlines : ∀ line ∈ ["", "  a", "", "b"], '\n' ∉ line.toList ∧ '\r' ∉ line.toList := by
    decide +kernel
  have hlast : ["", "  a", "", "b"].getLast? ≠ some "" := by decide
  obtain ⟨htext, hwritten⟩ := render_raw
  have hended : renderWith .tab { body := [Fragment.ofText "\n  a"] } = "\n  a\n" := by
    rw [(htext .tab _ hshort).1, if_neg (by decide +kernel)]
    rfl
  have hagain := (htext .tab _ hshort).2
  rw [hended] at hagain
  refine ⟨hreturn, ?_, hended, hagain, hlines, hlast, hwritten .standard _ (by simp) hlines hlast⟩
  rw [(htext .standard _ hreturn).1, if_pos (by decide +kernel)]

end TypeScript.SourceFile

end EntityClasses
