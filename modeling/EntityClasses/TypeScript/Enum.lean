import EntityClasses.Code.Fragment

/-! Exported enums whose members have their own names as values. -/

namespace EntityClasses.TypeScript

open Code

structure EnumDeclaration where
  name : String
  members : List String
deriving DecidableEq, Repr

namespace EnumDeclaration

def header (name : String) : String :=
  "export enum " ++ name ++ " \x7b"

def memberLine (name : String) : String :=
  name ++ " = \"" ++ name ++ "\","

/-- An enum without members stands on one line. -/
def fragments (decl : EnumDeclaration) : List Fragment :=
  if decl.members.isEmpty then [.line (header decl.name ++ "\x7d")]
  else [.block (header decl.name) (decl.members.map (.line <| memberLine ·)) (some "\x7d")]

end EnumDeclaration

end EntityClasses.TypeScript
