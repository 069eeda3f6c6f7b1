import EntityClasses.OutputFile

/-! The files of one generation, in the order in which they were registered. No two have the same path,
however it is spelled. -/

namespace EntityClasses

structure Registry where
  entries : List OutputFile
deriving DecidableEq, Repr

namespace Registry

def empty : Registry :=
  ⟨[]⟩

/-- The file registered under a path, in any spelling. -/
def get? (registry : Registry) (path : Path) : Option OutputFile :=
  registry.entries.find? fun file => file.path.Same path

/-- Adds a file behind all others. A path is registered once. -/
def register (registry : Registry) (file : OutputFile) : Except Failure Registry :=
  if (registry.get? file.path).isSome then .error (.repeatedPath file.path)
  else .ok ⟨registry.entries ++ [file]⟩

def size (registry : Registry) : Nat :=
  registry.entries.length

def isEmpty (registry : Registry) : Bool :=
  registry.entries.isEmpty

/-- Every file with its path written by components. -/
def preview (registry : Registry) : List (String × String) :=
  registry.entries.map fun file => (file.path.display, file.content)

/-- Writes the files below `base`, in order, and lists them by components. The first file that cannot
be written ends it; the files before it stay. -/
def writeAll {m : Type → Type} [Monad m] [Storage m] (registry : Registry) (base : Path) :
    ExceptT Failure m (List String) :=
  registry.entries.mapM fun file => do
    file.write base
    pure file.path.display

end Registry

end EntityClasses
