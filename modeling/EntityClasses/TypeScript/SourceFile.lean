import EntityClasses.Code.Writer
import EntityClasses.TypeScript.Import

/-! Source files: import statements, a body and export statements, with blank lines between them and
between the elements of the body. -/

namespace EntityClasses.TypeScript

open Code

structure SourceFile where
  imports : List Import := []
  body : List (List Fragment) := []
  exports : List Export := []

namespace SourceFile

/-- Statements that stand together. No statements are no group. -/
def statementGroup {α : Type} (fragments : α → List Fragment) : List α → List (List Fragment)
  | [] => []
  | statement :: statements => [(statement :: statements).flatMap fragments]

/-- What blank lines separate. -/
def groups (file : SourceFile) : List (List Fragment) :=
  statementGroup Import.fragments file.imports ++ file.body ++
    statementGroup Export.fragments file.exports

def isEmpty (file : SourceFile) : Bool :=
  file.groups.isEmpty

def renderWith (indent : Indent) (file : SourceFile) : String :=
  Code.render indent (Fragment.separated file.groups)

def render (file : SourceFile) : String :=
  file.renderWith .standard

end SourceFile

end EntityClasses.TypeScript
