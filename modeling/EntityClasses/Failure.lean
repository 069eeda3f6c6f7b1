import EntityClasses.FileTree

/-! Why a generation fails: two files claim one path, or the file system refuses a step. -/

namespace EntityClasses

inductive Failure where
  | repeatedPath (path : Path)
  | createParent (directory : Path) (fault : Fault)
  | write (path : Path) (fault : Fault)
  | remove (directory : Path) (fault : Fault)
  | create (directory : Path) (fault : Fault)
deriving DecidableEq, Repr

namespace Failure

def message : Failure → String
  | repeatedPath path => "'" ++ path.display ++ "' is generated more than once"
  | createParent directory _ => "failed to create directory '" ++ directory.text ++ "'"
  | write path _ => "failed to write '" ++ path.text ++ "'"
  | remove directory _ => "failed to remove '" ++ directory.text ++ "'"
  | create directory _ => "failed to create '" ++ directory.text ++ "'"

/-- What the file system reported, if it was the file system. -/
def fault? : Failure → Option Fault
  | repeatedPath _ => none
  | createParent _ fault | write _ fault | remove _ fault | create _ fault => some fault

end Failure

end EntityClasses
