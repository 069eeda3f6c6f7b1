import EntityClasses.Datamodel
import EntityClasses.TypeScript.Class

/-! The class of a model: a property for each field, with the decorators that check its value. -/

namespace EntityClasses

open TypeScript

namespace FieldType

/-- The decorator that checks the type of a value, for the types that have one. -/
def check? : FieldType → Option String
  | int => some "IsInt"
  | dateTime => some "IsDate"
  | string => some "IsString"
  | boolean => some "IsBoolean"
  | _ => none

end FieldType

namespace Field

/-- The type of the property. Only a named type shows that a field is a list. -/
def propertyType (field : Field) : String :=
  match field.type with
  | .int | .float | .decimal => "number"
  | .dateTime => "Date"
  | .string => "string"
  | .boolean => "boolean"
  | .json => "Prisma.JsonValue"
  | .enum name | .relation name | .other name => if field.isList then name ++ "[]" else name

/-- A relation is never required, because the related object may not be loaded. -/
def isRequiredProperty (field : Field) : Bool :=
  field.isRequired && !field.isRelation

def presence (field : Field) : String :=
  if field.isRequiredProperty then "IsDefined" else "IsOptional"

/-- The conversion of a value, then its presence, its type and its membership in an enum. -/
def decorators (field : Field) : List Decorator :=
  (match field.type with
    | .decimal => [⟨"Type", ["() => Number"]⟩]
    | _ => []) ++
  [⟨field.presence, []⟩] ++
  (match field.type.check? with
    | some check => [⟨check, []⟩]
    | none => []) ++
  (match field.type with
    | .enum name => [⟨"IsIn", ["getEnumValues(" ++ name ++ ")"]⟩]
    | _ => [])

def property (field : Field) : Property where
  name := field.name
  type := field.propertyType
  isRequired := field.isRequiredProperty
  decorators := field.decorators

end Field

def Model.toClass (model : Model) : ClassDeclaration where
  name := model.name
  properties := model.fields.map Field.property

end EntityClasses
