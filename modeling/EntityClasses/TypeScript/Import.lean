import EntityClasses.Code.Fragment

/-! Import and export statements, each on one line. -/

namespace EntityClasses.TypeScript

open Code

/-- Names in the braces of a statement. -/
def braced (names : List String) : String :=
  "\x7b " ++ ", ".intercalate names ++ " \x7d"

structure Import where
  source : String
  names : List String
deriving DecidableEq, Repr

namespace Import

/-- An import without names runs its source. -/
def statement (imported : Import) : String :=
  if imported.names.isEmpty then "import \"" ++ imported.source ++ "\";"
  else "import " ++ braced imported.names ++ " from \"" ++ imported.source ++ "\";"

def fragments (imported : Import) : List Fragment :=
  [.line imported.statement]

end Import

structure Export where
  source? : Option String
  names : List String
deriving DecidableEq, Repr

namespace Export

/-- An export of a source without names exports all of it; without a source there is then nothing to
export. -/
def statement? (exported : Export) : Option String :=
  match exported.source?, exported.names with
  | some source, [] => some ("export * from \"" ++ source ++ "\";")
  | some source, names => some ("export " ++ braced names ++ " from \"" ++ source ++ "\";")
  | none, [] => none
  | none, names => some ("export " ++ braced names ++ ";")

def fragments (exported : Export) : List Fragment :=
  exported.statement?.toList.map .line

end Export

end EntityClasses.TypeScript
