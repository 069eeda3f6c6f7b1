import EntityClasses.Entity.Imports
import EntityClasses.OutputFile
import EntityClasses.TypeScript.Enum
import EntityClasses.TypeScript.SourceFile

/-! The files of a generation: one for each enum and each model, barrels that export a directory, and
the helpers that the files of the models import. -/

namespace EntityClasses

open Code TypeScript

namespace GeneratedFile

/-- A source file in a directory. -/
def inDirectory (directory name : String) (file : SourceFile) : OutputFile where
  path := Path.join ⟨directory⟩ ⟨name⟩
  content := file.render

def enum (enumDir : String) (definition : EnumDefinition) : OutputFile :=
  inDirectory enumDir (definition.name ++ ".ts")
    { body := [EnumDeclaration.fragments ⟨definition.name, definition.values⟩] }

def entity (enumDir : String) (model : Model) : OutputFile :=
  inDirectory "entities" (model.name ++ ".ts")
    { imports := ((Entity.Imports.ofModel model).toTable enumDir).imports
      body := [model.toClass.fragments] }

/-- The names of a barrel in ascending order. -/
def sorted (names : List String) : List String :=
  names.mergeSort (· ≤ ·)

/-- A file that exports what files of these names beside it declare. -/
def barrel (directory : String) (names : List String) : OutputFile :=
  inDirectory directory "index.ts"
    { exports := (sorted names).map fun name => ⟨some ("./" ++ name), [name]⟩ }

/-- The values of an enum; where an enum has numeric members, the keys that lead back from their values
are left out. -/
def getEnumValues : String :=
  "\n".intercalate
    ["export const getEnumValues = <T extends Record<string, string | number>>(",
     "  enumType: T,",
     "): Array<T[keyof T]> =>",
     "  Object.keys(enumType)",
     "    .filter((key) => Number.isNaN(Number(key)))",
     "    .map((key) => enumType[key as keyof T]);"]

def helpers : OutputFile :=
  inDirectory "helpers" "index.ts" { body := [Fragment.ofText getEnumValues] }

end GeneratedFile

end EntityClasses
