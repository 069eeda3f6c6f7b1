import EntityClasses.CommandLine.Program

/-! The command line program on the files of the machine. -/

namespace EntityClasses

/-- What a failed operation of the machine is reported as. -/
def Fault.ofError : IO.Error → Fault
  | .noFileOrDirectory .. => .notFound
  | .alreadyExists .. => .alreadyExists
  | .inappropriateType .. => .notADirectory
  | .resourceBusy .. => .busy
  | .unsatisfiedConstraints .. => .directoryNotEmpty
  | _ => .invalidInput

/-- An operation of the machine with its fault as a value. -/
def attempt {α : Type} (operation : IO α) : BaseIO (Except Fault α) := do
  match ← operation.toBaseIO with
  | .ok a => pure (.ok a)
  | .error error => pure (.error (.ofError error))

instance : Storage BaseIO where
  present p := do
    pure (← attempt (IO.FS.realPath p.text)).isOk
  readText p := do
    match ← attempt (IO.FS.readBinFile p.text) with
    | .error fault => pure (.error fault)
    | .ok bytes =>
      match String.fromUTF8? bytes with
      | some text => pure (.ok text)
      | none => pure (.error .invalidData)
  writeText p text := attempt (IO.FS.writeBinFile p.text text.toUTF8)
  createDirectories p := attempt (IO.FS.createDirAll p.text)
  removeAll p := attempt (IO.FS.removeDirAll p.text)

/-- The variables that the process has been started with. Their definitions end in null characters. -/
def processEnvironment : BaseIO Environment := do
  match ← (Storage.readText ⟨"/proc/self/environ"⟩ : BaseIO (Except Fault String)) with
  | .ok definitions =>
    pure (.ofDefinitions ((Text.partsAt '\x00' definitions.toList).map String.ofList))
  | .error _ => pure fun _ => none

end EntityClasses

open EntityClasses CommandLine

def main (arguments : List String) : IO UInt32 := do
  let environment ← processEnvironment
  let outcome ← (CommandLine.run environment arguments : BaseIO Outcome)
  (← IO.getStdout).putStr outcome.standardText
  (← IO.getStderr).putStr outcome.errorText
  pure outcome.exitCode.toUInt32
