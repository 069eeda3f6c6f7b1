import EntityClasses.OutputFile

/-! Changes to a file system, performed on a file tree. Each change becomes one equation: which
operations of the tree it goes through, in which order, and where a fault ends it. -/

namespace EntityClasses

namespace FileTree

/-- The result of changes to a tree, and the tree they leave behind. -/
def perform {α : Type} (tree : FileTree) (changes : ExceptT Failure (StateM FileTree) α) :
    Except Failure α × FileTree :=
  changes.run.run tree

variable {α β : Type}

theorem perform_bind (tree : FileTree) (changes : ExceptT Failure (StateM FileTree) α)
    (next : α → ExceptT Failure (StateM FileTree) β) :
    tree.perform (changes >>= next) =
      match tree.perform changes with
      | (.ok a, changed) => changed.perform (next a)
      | (.error failure, changed) => (.error failure, changed) := by
  simp only [perform, ExceptT.run_bind, StateT.run_bind]
  rcases changes.run.run tree with ⟨_ | a, changed⟩ <;> rfl

theorem perform_bind_ok {tree changed : FileTree} {changes : ExceptT Failure (StateM FileTree) α}
    {a : α} (next : α → ExceptT Failure (StateM FileTree) β)
    (hchanges : tree.perform changes = (.ok a, changed)) :
    tree.perform (changes >>= next) = changed.perform (next a) := by
  rw [perform_bind, hchanges]

theorem perform_bind_error {tree changed : FileTree}
    {changes : ExceptT Failure (StateM FileTree) α} {failure : Failure}
    (next : α → ExceptT Failure (StateM FileTree) β)
    (hchanges : tree.perform changes = (.error failure, changed)) :
    tree.perform (changes >>= next) = (.error failure, changed) := by
  rw [perform_bind, hchanges]

theorem perform_failingAs (tree : FileTree) (failure : Fault → Failure)
    (operation : StateM FileTree (Except Fault α)) :
    tree.perform (failingAs failure operation) =
      ((operation.run tree).1.mapError failure, (operation.run tree).2) := by
  simp only [perform, failingAs, ExceptT.run_mk, StateT.run_bind]
  rcases operation.run tree with ⟨fault | a, changed⟩ <;> rfl

theorem perform_createDirectories (tree : FileTree) (failure : Fault → Failure) (p : Path) :
    tree.perform (failingAs failure (Storage.createDirectories p)) =
      ((tree.createDirectories p).1.mapError failure, (tree.createDirectories p).2) :=
  perform_failingAs tree failure (Storage.createDirectories p)

theorem perform_removeAll (tree : FileTree) (failure : Fault → Failure) (p : Path) :
    tree.perform (failingAs failure (Storage.removeAll p)) =
      ((tree.removeAll p).1.mapError failure, (tree.removeAll p).2) :=
  perform_failingAs tree failure (Storage.removeAll p)

theorem perform_writeText (tree : FileTree) (failure : Fault → Failure) (p : Path) (text : String) :
    tree.perform (failingAs failure (Storage.writeText p text)) =
      match tree.write p text.toUTF8 with
      | .ok written => (.ok (), written)
      | .error fault => (.error (failure fault), tree) := by
  have hrun : (Storage.writeText p text : StateM FileTree _).run tree =
      match tree.write p text.toUTF8 with
      | .ok written => (.ok (), written)
      | .error fault => (.error fault, tree) := rfl
  rw [perform_failingAs, hrun]
  cases tree.write p text.toUTF8 <;> rfl

/-- Writing a file: first the directories that lead to it, then the file. -/
theorem perform_writeFile_of_parent (tree : FileTree) {p parent : Path} (text : String)
    (hparent : p.parent? = some parent) :
    tree.perform (writeFile p text) =
      match tree.createDirectories parent with
      | (.ok (), ready) =>
        ready.perform (failingAs (.write p) (Storage.writeText p text))
      | (.error fault, partly) => (.error (.createParent parent fault), partly) := by
  rw [writeFile, hparent]
  dsimp only
  rw [perform_bind, perform_createDirectories]
  rcases tree.createDirectories parent with ⟨fault | _, ready⟩ <;> rfl

theorem perform_writeFile_of_no_parent (tree : FileTree) {p : Path} (text : String)
    (hparent : p.parent? = none) :
    tree.perform (writeFile p text) =
      tree.perform (failingAs (.write p) (Storage.writeText p text)) := by
  rw [writeFile, hparent]

/-- Clearing a directory: it is removed if it is there, and then made. -/
theorem perform_clearDirectory (tree : FileTree) (directory : Path) :
    tree.perform (clearDirectory directory) =
      match (if tree.exists directory then tree.removeAll directory else (.ok (), tree)) with
      | (.ok (), removed) =>
        removed.perform (failingAs (.create directory) (Storage.createDirectories directory))
      | (.error fault, partly) => (.error (.remove directory fault), partly) := by
  have hclear : clearDirectory (m := StateM FileTree) directory = (do
      let present ← (fun tree => (.ok (tree.exists directory), tree) :
        ExceptT Failure (StateM FileTree) Bool)
      if present then failingAs (.remove directory) (Storage.removeAll directory)
      failingAs (.create directory) (Storage.createDirectories directory)) := rfl
  have hpresent : tree.perform (fun tree => (.ok (tree.exists directory), tree) :
      ExceptT Failure (StateM FileTree) Bool) = (.ok (tree.exists directory), tree) := rfl
  rw [hclear, perform_bind_ok _ hpresent]
  by_cases hexists : tree.exists directory = true
  · rw [if_pos hexists, if_pos hexists, perform_bind, perform_removeAll]
    rcases tree.removeAll directory with ⟨fault | _, removed⟩ <;> rfl
  · rw [if_neg hexists, if_neg hexists]

end FileTree

end EntityClasses
