import EntityClasses.Path

/-! A file tree as a value. Paths start at its root, which is also the working directory. Single steps
(`makeDirectory`, `write`, `removeEmpty`) either change the tree or fail and leave it alone; the steps
that are made of several (`createDirectories`, `removeAll`) can fail halfway, so they give the tree back
in both cases. -/

namespace EntityClasses

/-- Why a file operation fails. -/
inductive Fault where
  | notFound
  | notADirectory
  | isADirectory
  | alreadyExists
  | directoryNotEmpty
  | invalidInput
  | nameTooLong
  | busy
  | invalidData
deriving DecidableEq, Repr

/-- A file with its bytes, or a directory with its named entries. -/
inductive FileTree where
  | file (content : ByteArray)
  | directory (entries : List (String × FileTree))

instance : Inhabited FileTree := ⟨.directory []⟩

namespace FileTree

/-- The place of a file or directory: the names that lead to it from the root. -/
abbrev Location := List String

def empty : FileTree :=
  .directory []

/-- The entry of this name put in the place of the old one, or behind all others. -/
def putEntry (name : String) (node : FileTree) : List (String × FileTree) → List (String × FileTree)
  | [] => [(name, node)]
  | entry :: entries =>
    if entry.1 = name then (name, node) :: entries else entry :: putEntry name node entries

def dropEntry (name : String) (entries : List (String × FileTree)) : List (String × FileTree) :=
  entries.filter (·.1 ≠ name)

/-- What stands at a location. -/
def find? : FileTree → Location → Option FileTree
  | node, [] => some node
  | .file _, _ :: _ => none
  | .directory entries, name :: names =>
    match entries.lookup name with
    | some node => node.find? names
    | none => none

/-- The tree with `change` applied to what stands at a location. Nothing happens where no location
like it exists. -/
def modify (change : FileTree → FileTree) : FileTree → Location → FileTree
  | node, [] => change node
  | .file content, _ :: _ => .file content
  | .directory entries, name :: names =>
    match entries.lookup name with
    | some node => .directory (putEntry name (modify change node names) entries)
    | none => .directory entries

/-- The tree with an entry put into the directory at a location. -/
def insert (tree : FileTree) (location : Location) (name : String) (node : FileTree) : FileTree :=
  tree.modify (fun
    | .directory entries => .directory (putEntry name node entries)
    | .file content => .file content) location

def erase (tree : FileTree) (location : Location) (name : String) : FileTree :=
  tree.modify (fun
    | .directory entries => .directory (dropEntry name entries)
    | .file content => .file content) location

/-- The greatest number of bytes in a name. -/
def maxNameSize : Nat :=
  255

/-- Whether a name is too long to be looked up. -/
def isTooLong (name : String) : Bool :=
  maxNameSize < name.utf8ByteSize

/-- The location reached from a location over the parts of a path. Each part needs a directory to be
looked up in. -/
def walk (tree : FileTree) : Location → List String → Except Fault Location
  | location, [] => .ok location
  | location, part :: parts =>
    match tree.find? location with
    | some (.directory entries) =>
      if part = "." then tree.walk location parts
      else if part = ".." then tree.walk location.dropLast parts
      else if isTooLong part then .error .nameTooLong
      else if (entries.lookup part).isSome then tree.walk (location ++ [part]) parts
      else .error .notFound
    | some (.file _) => .error .notADirectory
    | none => .error .notFound

end FileTree

namespace Path

/-- The parts of a path that a look-up goes through. -/
def steps (p : Path) : List String :=
  p.parts.filter (· ≠ "")

/-- The greatest number of bytes in a path. -/
def maxSize : Nat :=
  4095

/-- Why a path cannot be looked up at all, if it cannot. -/
def fault? (p : Path) : Option Fault :=
  if '\x00' ∈ p.text.toList then some .invalidInput
  else if p.text = "" then some .notFound
  else if maxSize < p.text.utf8ByteSize then some .nameTooLong
  else none

/-- Whether a slash follows the last part; what is named must then be a directory. -/
def endsInSlash (p : Path) : Bool :=
  p.text.toList.getLast? = some '/'

end Path

namespace FileTree

/-- The location that a path names. -/
def locate (tree : FileTree) (p : Path) : Except Fault Location :=
  match p.fault? with
  | some fault => .error fault
  | none => tree.walk [] (if p.endsInSlash then p.steps ++ ["."] else p.steps)

def «exists» (tree : FileTree) (p : Path) : Bool :=
  (tree.locate p).isOk

def isDirectory (tree : FileTree) (p : Path) : Bool :=
  match tree.locate p with
  | .ok location =>
    match tree.find? location with
    | some (.directory _) => true
    | _ => false
  | .error _ => false

def read (tree : FileTree) (p : Path) : Except Fault ByteArray :=
  match tree.locate p with
  | .ok location =>
    match tree.find? location with
    | some (.file content) => .ok content
    | some (.directory _) => .error .isADirectory
    | none => .error .notFound
  | .error fault => .error fault

def readText (tree : FileTree) (p : Path) : Except Fault String :=
  match tree.read p with
  | .ok content =>
    match String.fromUTF8? content with
    | some text => .ok text
    | none => .error .invalidData
  | .error fault => .error fault

/-- The directory in which the last part of a path is looked up, its entries, and that part. -/
def lookUpParent (tree : FileTree) (steps : List String) (last : String) :
    Except Fault (Location × List (String × FileTree) × String) :=
  match tree.walk [] steps with
  | .ok location =>
    match tree.find? location with
    | some (.directory entries) => .ok (location, entries, last)
    | some (.file _) => .error .notADirectory
    | none => .error .notFound
  | .error fault => .error fault

/-- The tree with one new directory. The directory around it must be there. -/
def makeDirectory (tree : FileTree) (p : Path) : Except Fault FileTree :=
  match p.fault?, p.steps.getLast? with
  | some fault, _ => .error fault
  | none, none => .error .alreadyExists
  | none, some last =>
    match tree.lookUpParent p.steps.dropLast last with
    | .error fault => .error fault
    | .ok (location, entries, name) =>
      if name = "." || name = ".." then .error .alreadyExists
      else if isTooLong name then .error .nameTooLong
      else if (entries.lookup name).isSome then .error .alreadyExists
      else .ok (tree.insert location name (.directory []))

/-- The tree with a file of this content. The directory around it must be there; an older file of the
name is replaced. -/
def write (tree : FileTree) (p : Path) (content : ByteArray) : Except Fault FileTree :=
  match p.fault?, p.steps.getLast? with
  | some fault, _ => .error fault
  | none, none => .error .isADirectory
  | none, some last =>
    match tree.lookUpParent p.steps.dropLast last with
    | .error fault => .error fault
    | .ok (location, entries, name) =>
      if name = "." || name = ".." || p.endsInSlash then .error .isADirectory
      else if isTooLong name then .error .nameTooLong
      else
        match entries.lookup name with
        | some (.directory _) => .error .isADirectory
        | _ => .ok (tree.insert location name (.file content))

/-- The tree without a directory whose entries are gone already. A directory cannot be removed by a
path that ends in a dot, in two dots or at the root. -/
def removeEmpty (tree : FileTree) (p : Path) : Except Fault FileTree :=
  match p.steps.getLast? with
  | none => .error .busy
  | some last =>
    match tree.lookUpParent p.steps.dropLast last with
    | .error fault => .error fault
    | .ok (location, _, name) =>
      if name = "." then .error .invalidInput
      else if name = ".." then .error .directoryNotEmpty
      else .ok (tree.erase location name)

/-- Makes the first of these directories, and the later ones of the list where it needs them. -/
def createAll : List Path → FileTree → Except Fault Unit × FileTree
  | [], tree => (.ok (), tree)
  | p :: above, tree =>
    match tree.makeDirectory p with
    | .ok made => (.ok (), made)
    | .error .notFound =>
      match createAll above tree with
      | (.error fault, partly) => (.error fault, partly)
      | (.ok (), ready) =>
        match ready.makeDirectory p with
        | .ok made => (.ok (), made)
        | .error fault => if ready.isDirectory p then (.ok (), ready) else (.error fault, ready)
    | .error fault => if tree.isDirectory p then (.ok (), tree) else (.error fault, tree)

/-- Makes a directory and the directories that lead to it, as far as they are missing. -/
def createDirectories (p : Path) (tree : FileTree) : Except Fault Unit × FileTree :=
  createAll p.ancestors tree

/-- Removes a directory with all that is in it. The entries go first, so they are lost also where the
directory itself cannot be removed. -/
def removeAll (p : Path) (tree : FileTree) : Except Fault Unit × FileTree :=
  match tree.locate p with
  | .error fault => (.error fault, tree)
  | .ok location =>
    match tree.find? location with
    | some (.directory _) =>
      let cleared := tree.modify (fun _ => .directory []) location
      match cleared.removeEmpty p with
      | .ok removed => (.ok (), removed)
      | .error .notFound => (.ok (), cleared)
      | .error fault => (.error fault, cleared)
    | some (.file _) => (.error .notADirectory, tree)
    | none => (.error .notFound, tree)

end FileTree

end EntityClasses
