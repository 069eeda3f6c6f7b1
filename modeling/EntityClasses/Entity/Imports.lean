import EntityClasses.Entity.Class
import EntityClasses.TypeScript.ImportTable

/-! What the file of a model imports: decorators, the types of its fields, and what these need. -/

namespace EntityClasses

open TypeScript

namespace Field

/-- The checking decorators, in the order in which a file imports them. -/
def validatorSymbols (field : Field) : List String :=
  field.type.check?.toList ++ [field.presence] ++ (if field.isEnum then ["IsIn"] else [])

/-- The converting decorators. -/
def transformerSymbols (field : Field) : List String :=
  match field.type with
  | .decimal => ["Type"]
  | _ => []

end Field

namespace Entity

/-- The imported symbols by what they are, each once and in the order of their first use. -/
structure Imports where
  validators : List String := []
  transformers : List String := []
  relations : List String := []
  enums : List String := []
  needsPrisma : Bool := false
  needsHelpers : Bool := false
deriving DecidableEq, Repr

namespace Imports

/-- The imports with those of one more field. A model does not import itself. -/
def addField (modelName : String) (imports : Imports) (field : Field) : Imports :=
  let decorated :=
    { imports with
      validators := field.validatorSymbols.foldl insertOnce imports.validators
      transformers := field.transformerSymbols.foldl insertOnce imports.transformers }
  match field.type with
  | .relation target =>
    if target = modelName then decorated
    else { decorated with relations := insertOnce decorated.relations target }
  | .enum name =>
    { decorated with enums := insertOnce decorated.enums name, needsHelpers := true }
  | .json => { decorated with needsPrisma := true }
  | _ => decorated

def ofModel (model : Model) : Imports :=
  model.fields.foldl (addField model.name) {}

/-- The imports by source. The file stands one level below the output directory, beside the files of
the other models. -/
def toTable (imports : Imports) (enumDir : String) : ImportTable :=
  ImportTable.empty
    |>.addAll "@prisma/client" (if imports.needsPrisma then ["Prisma"] else [])
    |>.addAll "class-transformer" imports.transformers
    |>.addAll "class-validator" imports.validators
    |>.addAll "./" imports.relations
    |>.addAll "../helpers" (if imports.needsHelpers then ["getEnumValues"] else [])
    |>.addAll ("../" ++ enumDir) imports.enums

end Imports

end Entity

end EntityClasses
