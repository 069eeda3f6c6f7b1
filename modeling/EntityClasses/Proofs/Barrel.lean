import EntityClasses.GeneratedFile
import EntityClasses.Proofs.Code.Lines

/-! The text of a barrel: one line for each name, in ascending order, that exports the name from the file
beside the barrel that is called after it. -/

namespace EntityClasses

open Code TypeScript

namespace GeneratedFile

/-- The line that exports a name from the file called after it. -/
def exportLine (name : String) : String :=
  "export \x7b " ++ name ++ " \x7d from \"./" ++ name ++ "\";"

theorem toList_exportLine (name : String) :
    (exportLine name).toList = "export \x7b ".toList ++
      (name.toList ++ (" \x7d from \"./".toList ++ (name.toList ++ ['"', ';']))) := by
  simp [exportLine]

theorem exportLine_injective : Function.Injective exportLine := by
  intro name other hline
  have hlists := congrArg String.toList hline
  rw [toList_exportLine, toList_exportLine] at hlists
  have hbehind := List.append_cancel_left hlists
  have hlength : name.toList.length = other.toList.length := by
    have hlengths := congrArg List.length hbehind
    simp only [List.length_append] at hlengths
    omega
  exact String.toList_inj.mp (List.append_inj_left hbehind hlength)

theorem isLine_exportLine {name : String} (hname : '\n' ∉ name.toList) :
    Text.IsLine (exportLine name) := by
  refine Text.IsLine.append ?_ (by decide) (by decide)
  simp [hname]

theorem statement?_beside (name : String) :
    Export.statement? ⟨some ("./" ++ name), [name]⟩ = some (exportLine name) := by
  simp [Export.statement?, exportLine, braced, ← String.toList_inj]

theorem barrel_content (directory : String) (names : List String) :
    (barrel directory names).content = Text.unlines ((sorted names).map exportLine) := by
  have hfragments : ((sorted names).map fun name => (⟨some ("./" ++ name), [name]⟩ : Export)).flatMap
      Export.fragments = ((sorted names).map exportLine).map .line := by
    rw [List.flatMap_map, List.map_map, List.map_eq_flatMap]
    simp [Export.fragments, statement?_beside]
  rw [← render_lines .standard, ← hfragments, barrel, inDirectory, SourceFile.render,
    SourceFile.renderWith, SourceFile.groups]
  cases sorted names <;> rfl

theorem sorted_perm (names : List String) : (sorted names).Perm names :=
  List.mergeSort_perm names _

theorem pairwise_sorted (names : List String) : (sorted names).Pairwise (· ≤ ·) := by
  have htrans : ∀ a b c : String, decide (a ≤ b) → decide (b ≤ c) → decide (a ≤ c) := by
    simpa using fun a b c => String.le_trans
  have htotal : ∀ a b : String, decide (a ≤ b) || decide (b ≤ a) := by
    simpa using String.le_total
  simpa only [sorted, decide_eq_true_eq] using List.pairwise_mergeSort htrans htotal names

theorem sorted_eq_of_perm {names others : List String} (hperm : names.Perm others) :
    sorted names = sorted others :=
  List.Perm.eq_of_pairwise (fun _ _ _ _ => String.le_antisymm) (pairwise_sorted names)
    (pairwise_sorted others)
    ((sorted_perm names).trans (hperm.trans (sorted_perm others).symm))

/-- A line of a text exports this name. -/
def Exports (content name : String) : Prop :=
  (exportLine name).toList ∈ Text.lines content.toList

theorem exports_barrel_iff (directory : String) {names : List String}
    (hnames : ∀ name ∈ names, '\n' ∉ name.toList) (name : String) :
    Exports (barrel directory names).content name ↔ name ∈ names := by
  have hlines : ∀ line ∈ (sorted names).map exportLine, Text.IsLine line := by
    simp only [List.forall_mem_map, sorted, List.mem_mergeSort]
    exact fun name hname => isLine_exportLine (hnames name hname)
  rw [Exports, barrel_content, Text.lines_unlines hlines]
  simp [sorted, String.toList_inj, exportLine_injective.eq_iff]

end GeneratedFile

end EntityClasses
