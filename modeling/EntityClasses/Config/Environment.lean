import EntityClasses.Text.Blank

/-! Environment variables, and how they are looked up among definitions such as `NAME=value`. -/

namespace EntityClasses

/-- The values of the environment variables that are set. -/
abbrev Environment := String → Option String

/-- The environment of a list of definitions. A name is looked up as the text in front of an equals sign,
and the sign need not be the first one: after `NAME=a=b` the value of `NAME` is `a=b`, and that of `NAME=a`
is `b`. -/
def Environment.ofDefinitions (definitions : List String) : Environment := fun name =>
  definitions.findSome? fun definition =>
    (Text.dropStart? (name.toList ++ ['=']) definition.toList).map String.ofList

end EntityClasses
