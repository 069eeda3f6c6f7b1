/-! The datamodel that classes are generated from: models with typed fields, and enums. -/

namespace EntityClasses

/-- The type of a field. A scalar without a case of its own is `other`. -/
inductive FieldType where
  | int
  | float
  | string
  | boolean
  | dateTime
  | decimal
  | json
  | enum (name : String)
  | relation (model : String)
  | other (name : String)
deriving DecidableEq, Repr

namespace FieldType

/-- The scalar type of this name. -/
def scalar : String → FieldType
  | "Int" => int
  | "Float" => float
  | "String" => string
  | "Boolean" => boolean
  | "DateTime" => dateTime
  | "Decimal" => decimal
  | "Json" => json
  | name => other name

/-- The name of the type as a datamodel declares it. -/
def name : FieldType → String
  | int => "Int"
  | float => "Float"
  | string => "String"
  | boolean => "Boolean"
  | dateTime => "DateTime"
  | decimal => "Decimal"
  | json => "Json"
  | enum name | relation name | other name => name

end FieldType

structure Field where
  name : String
  type : FieldType
  isRequired : Bool := true
  isList : Bool := false
deriving DecidableEq, Repr

namespace Field

def isEnum (field : Field) : Bool :=
  match field.type with
  | .enum _ => true
  | _ => false

def isRelation (field : Field) : Bool :=
  match field.type with
  | .relation _ => true
  | _ => false

end Field

structure Model where
  name : String
  fields : List Field
deriving DecidableEq, Repr

namespace Model

def relationCount (model : Model) : Nat :=
  model.fields.countP Field.isRelation

end Model

structure EnumDefinition where
  name : String
  values : List String
deriving DecidableEq, Repr

/-- Enums and models in the order of their declarations. -/
structure Datamodel where
  enums : List EnumDefinition
  models : List Model
deriving DecidableEq, Repr

namespace Datamodel

def findModel? (datamodel : Datamodel) (name : String) : Option Model :=
  datamodel.models.find? (·.name = name)

def findEnum? (datamodel : Datamodel) (name : String) : Option EnumDefinition :=
  datamodel.enums.find? (·.name = name)

end Datamodel

/-- The first element of a list that already stands in front of its place, when `seen` stands in front
of the list. -/
def firstRepeatedAfter (seen : List String) : List String → Option String
  | [] => none
  | name :: names => if name ∈ seen then some name else firstRepeatedAfter (name :: seen) names

def firstRepeated (names : List String) : Option String :=
  firstRepeatedAfter [] names

end EntityClasses
