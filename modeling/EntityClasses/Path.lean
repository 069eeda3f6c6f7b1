import EntityClasses.Text.Lines

/-! Paths, as they are written. A path keeps its text; what it names is decided by its components, so
`a//b`, `a/./b` and `a/b/` are the same path, while `./a` and `a` are not. -/

namespace EntityClasses

structure Path where
  text : String
deriving DecidableEq, Repr, Inhabited

namespace Path

def isAbsolute (p : Path) : Bool :=
  p.text.toList.head? = some '/'

/-- The text between slashes, empty parts included. -/
def parts (p : Path) : List String :=
  (Text.partsAt '/' p.text.toList).map String.ofList

/-- A part that names nothing. -/
def isVoid (part : String) : Bool :=
  part = "" || part = "."

/-- The components of a path. A leading slash is the component `/`, a leading dot is kept, and so is
every double dot. -/
def components (p : Path) : List String :=
  match p.parts with
  | [] => []
  | first :: rest =>
    let named := rest.filter (!isVoid ·)
    if p.isAbsolute then "/" :: named
    else if first = "" then named
    else first :: named

/-- Two spellings of one path. -/
def Same (p q : Path) : Prop :=
  p.components = q.components

instance (p q : Path) : Decidable (p.Same q) :=
  inferInstanceAs (Decidable (p.components = q.components))

/-- The components with slashes between them. -/
def display (p : Path) : String :=
  "/".intercalate p.components

/-- The path `p` as seen from `base`. -/
def join (base p : Path) : Path :=
  if p.isAbsolute then p
  else if base.text = "" || base.text.toList.getLast? = some '/' then ⟨base.text ++ p.text⟩
  else ⟨base.text ++ "/" ++ p.text⟩

/-- The parts up to the last one that names something. -/
def trimParts (parts : List String) : List String :=
  (parts.reverse.dropWhile isVoid).reverse

/-- The text in front of the last component. A path without components has no parent, and neither has
the root. -/
def parent? (p : Path) : Option Path :=
  match p.parts with
  | [] => none
  | first :: rest =>
    if p.isAbsolute then
      match trimParts rest with
      | [] => none
      | named => some ⟨"/" ++ "/".intercalate (trimParts named.dropLast)⟩
    else if first = "." then
      match trimParts rest with
      | [] => some ⟨""⟩
      | named => some ⟨"/".intercalate (first :: trimParts named.dropLast)⟩
    else
      match trimParts (first :: rest) with
      | [] => none
      | named => some ⟨"/".intercalate (trimParts named.dropLast)⟩

/-- At most `n` paths: `p`, its parent, the parent's parent, and so on. -/
def lineage : Nat → Path → List Path
  | 0, _ => []
  | n + 1, p =>
    p :: match p.parent? with
      | some q => lineage n q
      | none => []

/-- The path and its ancestors that have a component, the path first. -/
def ancestors (p : Path) : List Path :=
  lineage p.components.length p

end Path

end EntityClasses
