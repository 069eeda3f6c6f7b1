import EntityClasses.Code.Fragment

/-! Exported classes whose properties carry decorators. -/

namespace EntityClasses.TypeScript

open Code

/-- A decorator is always written as a call. -/
structure Decorator where
  name : String
  arguments : List String := []
deriving DecidableEq, Repr

def Decorator.text (decorator : Decorator) : String :=
  "@" ++ decorator.name ++ "(" ++ ", ".intercalate decorator.arguments ++ ")"

structure Property where
  name : String
  type : String
  isRequired : Bool := true
  decorators : List Decorator := []
deriving DecidableEq, Repr

namespace Property

/-- `!` says that a required property is assigned elsewhere, `?` that a property may be missing. -/
def marker (property : Property) : String :=
  if property.isRequired then "!" else "?"

def declaration (property : Property) : String :=
  property.name ++ property.marker ++ ": " ++ property.type ++ ";"

/-- The decorators, a line each, and the declaration under them. -/
def fragments (property : Property) : List Fragment :=
  property.decorators.map (.line ·.text) ++ [.line property.declaration]

end Property

structure ClassDeclaration where
  name : String
  properties : List Property
deriving DecidableEq, Repr

namespace ClassDeclaration

def header (name : String) : String :=
  "export class " ++ name ++ " \x7b"

/-- A class without properties stands on one line. -/
def fragments (decl : ClassDeclaration) : List Fragment :=
  if decl.properties.isEmpty then [.line (header decl.name ++ "\x7d")]
  else
    [.block (header decl.name) (Fragment.separated (decl.properties.map Property.fragments))
      (some "\x7d")]

end ClassDeclaration

end EntityClasses.TypeScript
