import EntityClasses.Code.Fragment
import EntityClasses.Code.Indent

/-! Writing indented code. A writer holds the text written so far and the level of the next line. -/

namespace EntityClasses.Code

structure Writer where
  indent : Indent
  level : Nat
  text : String
deriving DecidableEq, Repr

namespace Writer

def new (indent : Indent) : Writer :=
  ⟨indent, 0, ""⟩

/-- The blank text in front of a line at a level. -/
def margin (indent : Indent) : Nat → String
  | 0 => ""
  | level + 1 => indent.unit ++ margin indent level

def line (writer : Writer) (text : String) : Writer :=
  { writer with text := writer.text ++ margin writer.indent writer.level ++ text ++ "\n" }

/-- An empty line has no margin. -/
def blank (writer : Writer) : Writer :=
  { writer with text := writer.text ++ "\n" }

def deeper (writer : Writer) : Writer :=
  { writer with level := writer.level + 1 }

/-- One level back; the outermost level stays. -/
def shallower (writer : Writer) : Writer :=
  { writer with level := writer.level - 1 }

mutual

def apply (writer : Writer) : Fragment → Writer
  | .line text => writer.line text
  | .blank => writer.blank
  | .block header body close =>
    let written := (applyAll (writer.line header).deeper body).shallower
    match close with
    | some text => written.line text
    | none => written
  | .sequence fragments => applyAll writer fragments

def applyAll (writer : Writer) : List Fragment → Writer
  | [] => writer
  | fragment :: fragments => applyAll (writer.apply fragment) fragments

end

/-- A header, what `body` writes one level deeper, and a closing line. -/
def block (writer : Writer) (header close : String) (body : Writer → Writer) : Writer :=
  (body (writer.line header).deeper).shallower.line close

/-- What `body` writes for each item in turn. -/
def each {α : Type} (writer : Writer) (items : List α) (body : Writer → α → Writer) : Writer :=
  items.foldl body writer

end Writer

/-- The text of fragments at the outermost level. -/
def render (indent : Indent) (fragments : List Fragment) : String :=
  ((Writer.new indent).applyAll fragments).text

end EntityClasses.Code
