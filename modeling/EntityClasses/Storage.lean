import EntityClasses.FileTree

/-! What the program asks of a file system, and the two operations that the generator builds on it. A
file tree that is passed along is a file system (`StateM FileTree`). -/

namespace EntityClasses

/-- The file operations of the program. -/
class Storage (m : Type → Type) where
  present : Path → m Bool
  readText : Path → m (Except Fault String)
  writeText : Path → String → m (Except Fault Unit)
  createDirectories : Path → m (Except Fault Unit)
  removeAll : Path → m (Except Fault Unit)

namespace Storage

instance : Storage (StateM FileTree) where
  present p tree := (tree.exists p, tree)
  readText p tree := (tree.readText p, tree)
  writeText p text tree :=
    match tree.write p text.toUTF8 with
    | .ok written => (.ok (), written)
    | .error fault => (.error fault, tree)
  createDirectories p tree := tree.createDirectories p
  removeAll p tree := tree.removeAll p

end Storage

end EntityClasses
