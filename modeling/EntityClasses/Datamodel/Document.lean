import EntityClasses.Datamodel
import EntityClasses.Json.Value

/-! The datamodel that a JSON value describes. A record is an object, or an array with the values of the
record in a fixed order. Members that a record does not know are ignored, in an object only; members that
it knows do not repeat. -/

namespace EntityClasses.Document

open Json

/-- The value of a key, if there is one. A key that repeats makes the members unusable. -/
def member? (members : List (String × Value)) (key : String) : Option (Option Value) :=
  match members.filter (·.1 = key) with
  | [] => some none
  | [member] => some (some member.2)
  | _ => none

/-- The values of a record with these keys, as far as they are given. -/
def slots? (keys : List String) : Value → Option (List (Option Value))
  | .object members => keys.mapM (member? members)
  | .array items =>
    if items.length ≤ keys.length then some ((List.range keys.length).map (items[·]?)) else none
  | _ => none

def required? {α : Type} (read : Value → Option α) : Option Value → Option α
  | some value => read value
  | none => none

def optional? {α : Type} (default : α) (read : Value → Option α) : Option Value → Option α
  | some value => read value
  | none => some default

def string? : Value → Option String
  | .string text => some text
  | _ => none

def bool? : Value → Option Bool
  | .bool value => some value
  | _ => none

def list? {α : Type} (read : Value → Option α) : Value → Option (List α)
  | .array items => items.mapM read
  | _ => none

/-- A value of an enum: its name, or an object with its name. -/
def enumValue? : Value → Option String
  | .string name => some name
  | .object members => (member? members "name").bind (required? string?)
  | _ => none

def enum? (value : Value) : Option EnumDefinition :=
  match slots? ["name", "values"] value with
  | some [name, values] => do
    pure ⟨← required? string? name, ← required? (list? enumValue?) values⟩
  | _ => none

inductive Kind where
  | scalar
  | enum
  | object
  | unsupported
deriving DecidableEq, Repr

namespace Kind

def ofName? : String → Option Kind
  | "scalar" => some scalar
  | "enum" => some enum
  | "object" => some object
  | "unsupported" => some unsupported
  | _ => none

/-- The type of a field of this kind. -/
def fieldType : Kind → String → FieldType
  | scalar, name => FieldType.scalar name
  | enum, name => .enum name
  | object, name => .relation name
  | unsupported, name => .other name

end Kind

/-- A kind is its name, or an object with its name as the only key and null as the value. -/
def kind? : Value → Option Kind
  | .string name => Kind.ofName? name
  | .object [(name, .null)] => Kind.ofName? name
  | _ => none

def field? (value : Value) : Option Field :=
  match slots? ["name", "kind", "type", "isRequired", "isList"] value with
  | some [name, kind, type, isRequired, isList] => do
    pure {
      name := ← required? string? name
      type := (← required? kind? kind).fieldType (← required? string? type)
      isRequired := ← optional? false bool? isRequired
      isList := ← optional? false bool? isList }
  | _ => none

def model? (value : Value) : Option Model :=
  match slots? ["name", "fields"] value with
  | some [name, fields] => do
    pure ⟨← required? string? name, ← required? (list? field?) fields⟩
  | _ => none

def bare? (value : Value) : Option Datamodel :=
  match slots? ["enums", "models"] value with
  | some [enums, models] => do
    pure ⟨← optional? [] (list? enum?) enums, ← optional? [] (list? model?) models⟩
  | _ => none

/-- The datamodel in the member `datamodel` of an object. -/
def wrapped? : Value → Option Datamodel
  | .object members => (member? members "datamodel").bind (required? bare?)
  | _ => none

/-- The datamodel that a value wraps, or else the one that it is. -/
def datamodel? (value : Value) : Option Datamodel :=
  (wrapped? value).or (bare? value)

end EntityClasses.Document
