import EntityClasses.Code.Writer
import EntityClasses.Proofs.Text.Lines

/-! The lines of written code. Whatever the writer has written before, a fragment appends its own lines and
leaves the level as it is, and these lines depend on the fragment, the indentation and the level alone. -/

namespace EntityClasses.Code

open Text

namespace Fragment

mutual

/-- The lines of a fragment, each with its margin. -/
def lines (indent : Indent) (level : Nat) : Fragment → List String
  | .line text => [Writer.margin indent level ++ text]
  | .blank => [""]
  | .block header body close =>
    (Writer.margin indent level ++ header) :: linesOf indent (level + 1) body ++
      (match close with
        | some text => [Writer.margin indent level ++ text]
        | none => [])
  | .sequence fragments => linesOf indent level fragments

def linesOf (indent : Indent) (level : Nat) : List Fragment → List String
  | [] => []
  | fragment :: fragments => lines indent level fragment ++ linesOf indent level fragments

end

variable (indent : Indent) (level : Nat)

theorem linesOf_append (fragments others : List Fragment) :
    linesOf indent level (fragments ++ others) =
      linesOf indent level fragments ++ linesOf indent level others := by
  induction fragments with
  | nil => rfl
  | cons fragment fragments ih => rw [List.cons_append, linesOf, linesOf, ih, List.append_assoc]

theorem linesOf_lines (written : List String) :
    linesOf indent level (written.map .line) = written.map (Writer.margin indent level ++ ·) := by
  induction written with
  | nil => rfl
  | cons text written ih => rw [List.map_cons, linesOf, lines, ih, List.singleton_append, List.map_cons]

/-- At the outermost level a text has the lines that it has on its own. -/
theorem linesOf_ofText (text : String) :
    linesOf indent 0 (ofText text) = (Text.lines text.toList).map String.ofList := by
  rw [ofText]
  induction Text.lines text.toList with
  | nil => rfl
  | cons line written ih =>
      rw [List.map_cons, linesOf, ih, List.map_cons]
      cases line <;> simp [lines, Writer.margin]

/-- Groups are separated by an empty line. -/
theorem linesOf_separated (groups : List (List Fragment)) :
    linesOf indent level (separated groups) =
      [""].intercalate (groups.map (linesOf indent level)) := by
  induction groups with
  | nil => rfl
  | cons group groups ih =>
      cases groups with
      | nil => simp [separated]
      | cons next groups =>
          have hseparated : separated (group :: next :: groups) =
              group ++ .blank :: separated (next :: groups) := rfl
          rw [hseparated, linesOf_append, linesOf, lines, ih]
          simp

end Fragment

namespace Writer

/-- The writer after these lines, which have their margins already. -/
def write (writer : Writer) (written : List String) : Writer :=
  { writer with text := writer.text ++ unlines written }

variable (writer : Writer)

@[simp]
theorem write_nil : writer.write [] = writer := by
  simp [write, unlines]

@[simp]
theorem write_write (written others : List String) :
    (writer.write written).write others = writer.write (written ++ others) := by
  simp [write, unlines_append, String.append_assoc]

@[simp]
theorem indent_write (written : List String) : (writer.write written).indent = writer.indent := rfl

@[simp]
theorem level_write (written : List String) : (writer.write written).level = writer.level := rfl

@[simp]
theorem deeper_write (written : List String) :
    (writer.write written).deeper = writer.deeper.write written := rfl

@[simp]
theorem shallower_deeper_write (written : List String) :
    (writer.deeper.write written).shallower = writer.write written := rfl

theorem line_eq_write (text : String) :
    writer.line text = writer.write [margin writer.indent writer.level ++ text] := by
  simp [line, write, unlines, String.append_assoc]

theorem blank_eq_write : writer.blank = writer.write [""] := by
  simp [blank, write, unlines]

mutual

theorem apply_eq_write (writer : Writer) (fragment : Fragment) :
    writer.apply fragment = writer.write (fragment.lines writer.indent writer.level) := by
  cases fragment with
  | line text => exact writer.line_eq_write text
  | blank => exact writer.blank_eq_write
  | block header body close =>
      have hbody := applyAll_eq_write (writer.line header).deeper body
      have hwritten : ((writer.line header).deeper.applyAll body).shallower =
          writer.write ((margin writer.indent writer.level ++ header) ::
            Fragment.linesOf writer.indent (writer.level + 1) body) := by
        rw [hbody, line_eq_write, deeper_write, write_write, shallower_deeper_write]
        rfl
      cases close with
      | none => rw [Writer.apply, hwritten, Fragment.lines, List.append_nil]
      | some text =>
          rw [Writer.apply, hwritten, Fragment.lines]
          exact (line_eq_write _ text).trans (write_write ..)
  | sequence fragments =>
      rw [Writer.apply, Fragment.lines]
      exact applyAll_eq_write writer fragments

theorem applyAll_eq_write (writer : Writer) (fragments : List Fragment) :
    writer.applyAll fragments =
      writer.write (Fragment.linesOf writer.indent writer.level fragments) := by
  cases fragments with
  | nil => rw [Writer.applyAll, Fragment.linesOf, write_nil]
  | cons fragment fragments =>
      have hfirst := apply_eq_write writer fragment
      rw [Writer.applyAll, applyAll_eq_write (writer.apply fragment) fragments, hfirst, write_write,
        indent_write, level_write, Fragment.linesOf]

end

end Writer

theorem render_eq_unlines (indent : Indent) (fragments : List Fragment) :
    render indent fragments = unlines (Fragment.linesOf indent 0 fragments) := by
  rw [render, Writer.applyAll_eq_write]
  simp [Writer.new, Writer.write]

theorem render_lines (indent : Indent) (written : List String) :
    render indent (written.map .line) = unlines written := by
  rw [render_eq_unlines, Fragment.linesOf_lines]
  simp [Writer.margin]

end EntityClasses.Code
