import EntityClasses.Proofs.Code.Lines
import EntityClasses.Proofs.Path.Parts

/-! Fragments as lines that know how deep they stand. The depth of a line counts the blocks around it, and a
sequence counts for nothing. Written from some level on, a line has as many units in front of it as its depth
and the level together, so writing one level deeper puts one unit in front of what it writes. -/

namespace EntityClasses

namespace Text

/-- The text with `sep` between its parts. -/
def joinWith (sep : Char) : List (List Char) → List Char
  | [] => []
  | [part] => part
  | part :: parts => part ++ sep :: joinWith sep parts

/-- A text with `unit` in front of each line that is not empty. -/
def indented (unit text : String) : String :=
  .ofList (joinWith '\n' ((partsAt '\n' text.toList).map fun line =>
    if line = [] then [] else unit.toList ++ line))

theorem indented_unlines (unit : String) {written : List String}
    (hlines : ∀ line ∈ written, '\n' ∉ line.toList) :
    indented unit (unlines written) =
      unlines (written.map fun line => if line = "" then "" else unit ++ line) := by
  rw [indented, ← String.toList_inj, String.toList_ofList, toList_unlines, toList_unlines]
  induction written with
  | nil => rfl
  | cons line written ih =>
      rw [List.forall_mem_cons] at hlines
      have hrest := ih hlines.2
      obtain ⟨part, parts, hparts⟩ := List.exists_cons_of_ne_nil
        (partsAt_ne_nil '\n' (written.flatMap fun line => line.toList ++ ['\n']))
      rw [List.flatMap_cons, List.append_assoc, List.singleton_append, partsAt_append,
        partsAt_of_not_mem '\n' hlines.1, List.singleton_append, List.map_cons, List.map_cons,
        List.flatMap_cons, ← hrest, hparts, List.map_cons]
      by_cases hline : line = "" <;> simp [hline, joinWith, String.toList_eq_nil_iff]

end Text

namespace Code

open Text

/-- A line with the number of blocks that it stands in. A blank line has no margin wherever it stands. -/
inductive NestedLine where
  | line (depth : Nat) (text : String)
  | blank

namespace NestedLine

/-- The line as it is written from a level on, without its newline. -/
def shown (indent : Indent) (level : Nat) : NestedLine → String
  | .line depth text => String.join (List.replicate (level + depth) indent.unit) ++ text
  | .blank => ""

end NestedLine

namespace Fragment

mutual

/-- The lines of a fragment around which there are `depth` blocks. -/
def nestedLines (depth : Nat) : Fragment → List NestedLine
  | .line text => [.line depth text]
  | .blank => [.blank]
  | .block header body close =>
    .line depth header :: nestedLinesOf (depth + 1) body ++ close.toList.map (.line depth)
  | .sequence fragments => nestedLinesOf depth fragments

def nestedLinesOf (depth : Nat) : List Fragment → List NestedLine
  | [] => []
  | fragment :: fragments => nestedLines depth fragment ++ nestedLinesOf depth fragments

end

/-- The text of a fragment that is written from a level on. -/
def textAt (indent : Indent) (level : Nat) (fragment : Fragment) : String :=
  unlines ((fragment.nestedLines 0).map (·.shown indent level))

/-- Every line, header and closing line of a fragment is a line: it is not empty and has no newline. -/
def HoldsLines (fragment : Fragment) : Prop :=
  ∀ depth text, .line depth text ∈ fragment.nestedLines 0 → text ≠ "" ∧ '\n' ∉ text.toList

/-- A nested sequence is replaced by its elements in one place, however deep. -/
inductive Inlines : List Fragment → List Fragment → Prop where
  | here (before inner after : List Fragment) :
      Inlines (before ++ .sequence inner :: after) (before ++ (inner ++ after))
  | inBlock (before : List Fragment) (header : String) {body inlined : List Fragment}
      (close : Option String) (after : List Fragment) : Inlines body inlined →
      Inlines (before ++ .block header body close :: after) (before ++ .block header inlined close :: after)
  | inSequence (before : List Fragment) {inner inlined : List Fragment} (after : List Fragment) :
      Inlines inner inlined →
      Inlines (before ++ .sequence inner :: after) (before ++ .sequence inlined :: after)

theorem margin_eq_join (indent : Indent) (level : Nat) :
    Writer.margin indent level = String.join (List.replicate level indent.unit) := by
  induction level with
  | zero => rfl
  | succ level ih => rw [Writer.margin, ih, List.replicate_succ, String.join_cons]

mutual

theorem lines_eq_nestedLines (indent : Indent) (level depth : Nat) (fragment : Fragment) :
    fragment.lines indent (level + depth) =
      (fragment.nestedLines depth).map (·.shown indent level) := by
  cases fragment with
  | line text => simp [lines, nestedLines, NestedLine.shown, margin_eq_join]
  | blank => simp [lines, nestedLines, NestedLine.shown]
  | block header body close =>
      have hbody := linesOf_eq_nestedLinesOf indent level (depth + 1) body
      rw [← Nat.add_assoc] at hbody
      cases close <;>
        simp [lines, nestedLines, NestedLine.shown, margin_eq_join, hbody]
  | sequence fragments =>
      rw [lines, nestedLines]
      exact linesOf_eq_nestedLinesOf indent level depth fragments

theorem linesOf_eq_nestedLinesOf (indent : Indent) (level depth : Nat) (fragments : List Fragment) :
    linesOf indent (level + depth) fragments =
      (nestedLinesOf depth fragments).map (·.shown indent level) := by
  cases fragments with
  | nil => rfl
  | cons fragment fragments =>
      rw [linesOf, nestedLinesOf, List.map_append, lines_eq_nestedLines indent level depth fragment,
        linesOf_eq_nestedLinesOf indent level depth fragments]

end

theorem unlines_lines (indent : Indent) (level : Nat) (fragment : Fragment) :
    unlines (fragment.lines indent level) = fragment.textAt indent level := by
  rw [textAt, ← lines_eq_nestedLines, Nat.add_zero]

theorem linesOf_inlines {fragments others : List Fragment} (hinlines : Inlines fragments others)
    (indent : Indent) (level : Nat) : linesOf indent level fragments = linesOf indent level others := by
  induction hinlines generalizing level with
  | here before inner after =>
      simp only [linesOf_append, linesOf, lines]
  | inBlock before header close after _ ih =>
      simp only [linesOf_append, linesOf, lines, ih]
  | inSequence before after _ ih =>
      simp only [linesOf_append, linesOf, lines, ih]

theorem newline_notMem_unit (indent : Indent) : '\n' ∉ indent.unit.toList := by
  unfold Indent.unit
  split <;> decide

theorem newline_notMem_join {unit : String} (hunit : '\n' ∉ unit.toList) (level : Nat) :
    '\n' ∉ (String.join (List.replicate level unit)).toList := by
  simp [String.toList_join, hunit]

/-- One level deeper is one more unit in front of each line that is not empty. -/
theorem textAt_succ {fragment : Fragment} (hlines : fragment.HoldsLines) (indent : Indent) (level : Nat) :
    fragment.textAt indent (level + 1) = indented indent.unit (fragment.textAt indent level) := by
  have hshown : ∀ line ∈ fragment.nestedLines 0, '\n' ∉ (line.shown indent level).toList ∧
      line.shown indent (level + 1) =
        if line.shown indent level = "" then "" else indent.unit ++ line.shown indent level := by
    intro line hline
    cases line with
    | blank => exact ⟨by simp [NestedLine.shown], rfl⟩
    | line depth text =>
        obtain ⟨hne, hnewline⟩ := hlines depth text hline
        have hmargin := newline_notMem_join (newline_notMem_unit indent) (level + depth)
        constructor
        · rw [NestedLine.shown, String.toList_append, List.mem_append, not_or]
          exact ⟨hmargin, hnewline⟩
        · rw [NestedLine.shown, NestedLine.shown, if_neg (by simp [hne]), Nat.add_right_comm,
            List.replicate_succ, String.join_cons, String.append_assoc]
  rw [textAt, textAt, indented_unlines, List.map_map]
  · exact congrArg unlines (List.map_congr_left fun line hline => (hshown line hline).2)
  · rw [List.forall_mem_map]
    exact fun line hline => (hshown line hline).1

end Fragment

/-- **Fragments are written by their lines**, each with a margin for its level and its depth, and the level
stays; a nested sequence can be replaced by its elements; and one level deeper is one unit more in front of
each line that is not empty. -/
theorem apply_writes_nestedLines :
    (∀ (writer : Writer) (fragment : Fragment), writer.apply fragment =
      { writer with text := writer.text ++ fragment.textAt writer.indent writer.level }) ∧
    (∀ (writer : Writer) (fragments others : List Fragment), Fragment.Inlines fragments others →
      writer.applyAll fragments = writer.applyAll others) ∧
    ∀ (indent : Indent) (level : Nat) (fragment : Fragment), fragment.HoldsLines →
      fragment.textAt indent (level + 1) = indented indent.unit (fragment.textAt indent level) := by
  refine ⟨fun writer fragment => ?_, fun writer fragments others hinlines => ?_,
    fun indent level fragment hlines => Fragment.textAt_succ hlines indent level⟩
  · rw [Writer.apply_eq_write, Writer.write, Fragment.unlines_lines]
  · rw [Writer.applyAll_eq_write, Writer.applyAll_eq_write, Fragment.linesOf_inlines hinlines]

/-- A blank line, and a sequence in a block in a sequence. -/
def listing : Fragment :=
  .sequence [.line "a", .sequence [.blank, .block "b:" [.sequence [.line "c", .blank]] (some "end")]]

/-- The listing without its innermost sequence. -/
def inlinedListing : Fragment :=
  .sequence [.line "a", .sequence [.blank, .block "b:" [.line "c", .blank] (some "end")]]

/-- The blank lines stay without a margin, and the sequence in the block can be left out. -/
theorem apply_writes_nestedLines_listing :
    (Writer.mk .tab 1 "x\n").apply listing =
      ⟨.tab, 1, "x\n\ta\n\n\tb:\n\t\tc\n\n\tend\n"⟩ ∧
    Fragment.Inlines [listing] [inlinedListing] ∧
    (Writer.new .tab).applyAll [listing] = (Writer.new .tab).applyAll [inlinedListing] ∧
    listing.HoldsLines ∧
    listing.textAt .tab 1 = indented "\t" (listing.textAt .tab 0) := by
  have hinlines : Fragment.Inlines [listing] [inlinedListing] :=
    .inSequence [] [] (.inSequence [.line "a"] [] (.inBlock [.blank] "b:" (some "end") []
      (.here [] [.line "c", .blank] [])))
  have hnested : listing.nestedLines 0 =
      [.line 0 "a", .blank, .line 0 "b:", .line 1 "c", .blank, .line 0 "end"] := rfl
  have hlines : listing.HoldsLines := by
    intro depth text hline
    simp only [hnested, List.mem_cons, NestedLine.line.injEq, reduceCtorEq, List.not_mem_nil, or_false,
      false_or] at hline
    rcases hline with ⟨-, rfl⟩ | ⟨-, rfl⟩ | ⟨-, rfl⟩ | ⟨-, rfl⟩ <;> decide
  have htext : listing.textAt .tab 1 = "\ta\n\n\tb:\n\t\tc\n\n\tend\n" := by decide
  obtain ⟨hwrites, hsame, hdeeper⟩ := apply_writes_nestedLines
  refine ⟨?_, hinlines, hsame _ _ _ hinlines, hlines, hdeeper .tab 0 listing hlines⟩
  rw [hwrites, htext]
  rfl

end Code

end EntityClasses
