import EntityClasses.Failure
import EntityClasses.Storage

/-! A rendered file on its way to the output directory, and the two changes that a generation makes to
a file system: clearing a directory and writing a file. -/

namespace EntityClasses

/-- A rendered file. Its path is relative to the output directory. -/
structure OutputFile where
  path : Path
  content : String
deriving DecidableEq, Repr

section Changes

variable {m : Type → Type} [Monad m] [Storage m]

/-- A file operation whose fault is reported as a failure. -/
def failingAs {α : Type} (failure : Fault → Failure) (operation : m (Except Fault α)) :
    ExceptT Failure m α :=
  ExceptT.mk do
    match ← operation with
    | .ok a => pure (.ok a)
    | .error fault => pure (.error (failure fault))

/-- Writes a file and makes the directories that lead to it. -/
def writeFile (path : Path) (content : String) : ExceptT Failure m Unit := do
  match path.parent? with
  | some parent => failingAs (.createParent parent) (Storage.createDirectories parent)
  | none => pure ()
  failingAs (.write path) (Storage.writeText path content)

/-- Leaves an empty directory, whatever was in it. -/
def clearDirectory (directory : Path) : ExceptT Failure m Unit := do
  if ← (Storage.present directory : m Bool) then
    failingAs (.remove directory) (Storage.removeAll directory)
  failingAs (.create directory) (Storage.createDirectories directory)

/-- Writes a file below `base`. -/
def OutputFile.write (base : Path) (file : OutputFile) : ExceptT Failure m Unit :=
  writeFile (base.join file.path) file.content

end Changes

end EntityClasses
