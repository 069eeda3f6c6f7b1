import EntityClasses.Text.Lines

/-! Code as it is before it is indented. -/

namespace EntityClasses.Code

inductive Fragment where
  | line (text : String)
  | blank
  /-- A header, a body one level deeper, and a closing line if there is one. -/
  | block (header : String) (body : List Fragment) (close : Option String)
  | sequence (fragments : List Fragment)

namespace Fragment

/-- Groups of fragments with a blank line between neighbours. A group without fragments counts. -/
def separated : List (List Fragment) → List Fragment
  | [] => []
  | [group] => group
  | group :: groups => group ++ blank :: separated groups

/-- The lines of a text as they stand. -/
def ofText (text : String) : List Fragment :=
  (Text.lines text.toList).map fun
    | [] => blank
    | c :: cs => line (String.ofList (c :: cs))

/-- Lines as they stand, put together to a text first. -/
def ofLines (lines : List String) : List Fragment :=
  ofText ("\n".intercalate lines)

end Fragment

end EntityClasses.Code
