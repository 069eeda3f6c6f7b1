import EntityClasses.CommandLine.Flag
import EntityClasses.Config.File
import EntityClasses.Text.Blank

/-! Reading the arguments of the command line, from left to right: flags, then a command, then the flags
of the command. Help and version are given as soon as they are asked for. -/

namespace EntityClasses.CommandLine

open Text

inductive UsageError where
  | missingCommand
  | unknownCommand (word : String)
  | unexpectedArgument (word : String)
  | missingValue (flag : Flag)
  | unexpectedValue (flag : Flag)
  | emptyValue (flag : Flag)
  | repeated (flag : Flag)
deriving DecidableEq, Repr

def UsageError.message : UsageError → String
  | missingCommand => "a command is required: generate or check"
  | unknownCommand word => "unrecognized command '" ++ word ++ "'"
  | unexpectedArgument word => "unexpected argument '" ++ word ++ "'"
  | missingValue flag => "a value is required for '--" ++ flag.long ++ "'"
  | unexpectedValue flag => "'--" ++ flag.long ++ "' takes no value"
  | emptyValue flag => "the value of '--" ++ flag.long ++ "' is empty"
  | repeated flag => "'--" ++ flag.long ++ "' is given more than once"

/-- A flag with its value, which is empty if the flag takes none. -/
structure Occurrence where
  flag : Flag
  value : String
deriving DecidableEq, Repr

/-- Where the reading of flags ends. -/
inductive Ending where
  | done
  | help
  | version
  /-- At a word that is no flag, with the words behind it. -/
  | word (text : String) (rest : List String)
deriving DecidableEq, Repr

/-- The flags with one more. -/
def addOccurrence (seen : List Occurrence) (flag : Flag) (value : String) :
    Except UsageError (List Occurrence) :=
  if !flag.repeats && seen.any (·.flag = flag) then .error (.repeated flag)
  else if flag.takesPath && value = "" then .error (.emptyValue flag)
  else .ok (seen ++ [⟨flag, value⟩])

/-- What one word of the command line leads to. -/
inductive Step where
  | go (seen : List Occurrence)
  /-- The value of the flag is the next word. -/
  | await (seen : List Occurrence) (flag : Flag)
  | stop (ending : Ending)

/-- The step after a flag without a value. -/
def plainStep (seen : List Occurrence) (flag : Flag) : Except UsageError Step :=
  match flag with
  | .help => .ok (.stop .help)
  | .version => .ok (.stop .version)
  | _ => (addOccurrence seen flag "").map .go

/-- Reads a flag by its name, behind the dashes. A value may follow an equals sign. -/
def readLong (flags : List Flag) (seen : List Occurrence) (s : List Char) : Except UsageError Step :=
  let name := String.ofList (s.takeWhile (· ≠ '='))
  match flags.find? (·.long = name), s.dropWhile (· ≠ '=') with
  | none, _ => .error (.unexpectedArgument ("--" ++ String.ofList s))
  | some flag, [] => if flag.takesValue then .ok (.await seen flag) else plainStep seen flag
  | some flag, _ :: value =>
    if flag.takesValue then (addOccurrence seen flag (String.ofList value)).map .go
    else .error (.unexpectedValue flag)

/-- Reads flags by their letters, behind the dash. What follows the letter of a flag with a value is its
value, with or without an equals sign in front. -/
def readShort (flags : List Flag) (seen : List Occurrence) : List Char → Except UsageError Step
  | [] => .ok (.go seen)
  | c :: cs =>
    match flags.find? (·.short? = some c) with
    | none => .error (.unexpectedArgument (String.ofList ['-', c]))
    | some flag =>
      if flag.takesValue then
        match cs with
        | [] => .ok (.await seen flag)
        | '=' :: value => (addOccurrence seen flag (String.ofList value)).map .go
        | value => (addOccurrence seen flag (String.ofList value)).map .go
      else do
        match ← plainStep seen flag with
        | .go seen => readShort flags seen cs
        | step => pure step

/-- Reads a word. A dash alone is no flag, and two dashes alone end the flags. -/
def readWord (flags : List Flag) (seen : List Occurrence) (word : String) (rest : List String) :
    Except UsageError Step :=
  match word.toList with
  | ['-', '-'] =>
    match rest with
    | [] => .ok (.go seen)
    | next :: _ => .error (.unexpectedArgument next)
  | '-' :: '-' :: name => readLong flags seen name
  | '-' :: c :: letters => readShort flags seen (c :: letters)
  | _ => .ok (.stop (.word word rest))

/-- Whether a word can be a value that stands on its own. -/
def isValue (word : String) : Bool :=
  word.toList.head? ≠ some '-' || word = "-"

/-- Reads flags up to a word that is none. A flag may be waiting for its value. -/
def readFlags (flags : List Flag) (seen : List Occurrence) (waiting : Option Flag) :
    List String → Except UsageError (List Occurrence × Ending)
  | [] =>
    match waiting with
    | some flag => .error (.missingValue flag)
    | none => .ok (seen, .done)
  | word :: rest =>
    match waiting with
    | some flag =>
      if isValue word then do
        readFlags flags (← addOccurrence seen flag word) none rest
      else .error (.missingValue flag)
    | none => do
      match ← readWord flags seen word rest with
      | .go seen => readFlags flags seen none rest
      | .await seen flag => readFlags flags seen (some flag) rest
      | .stop ending => pure (seen, ending)

/-- The files that a command reads. -/
structure SourceArguments where
  config : Path
  schema : Option String
deriving DecidableEq, Repr

inductive Command where
  | check (source : SourceArguments)
  | generate (source : SourceArguments) (output enumDir modelDir : Option String) (dryRun : Bool)
deriving DecidableEq, Repr

/-- What the command line asks for. -/
inductive Request where
  | help
  | version
  | run (verbosity : Nat) (command : Command)
deriving DecidableEq, Repr

namespace Occurrence

def value? (seen : List Occurrence) (flag : Flag) : Option String :=
  (seen.find? (·.flag = flag)).map (·.value)

def count (seen : List Occurrence) (flag : Flag) : Nat :=
  seen.countP (·.flag = flag)

end Occurrence

/-- The command with its flags. -/
def Command.ofFlags (name : CommandName) (seen : List Occurrence) : Command :=
  let value? := Occurrence.value? seen
  let source : SourceArguments :=
    ⟨((value? .config).map Path.mk).getD Config.defaultPath, value? .schema⟩
  match name with
  | .check => .check source
  | .generate =>
    .generate source (value? .output) (value? .enumDir) (value? .modelDir)
      ((value? .dryRun).isSome)

/-- Reads what follows a command. The verbosity asked for in front of the command holds unless some is
asked for behind it. -/
def readCommand (before : List Occurrence) (name : CommandName) (words : List String) :
    Except UsageError Request := do
  let (seen, ending) ← readFlags (Flag.ofCommand name) [] none words
  match ending with
  | .help => pure .help
  | .version => pure .version
  | .word word _ => throw (.unexpectedArgument word)
  | .done =>
    let counted := Occurrence.count seen .verbose
    let verbosity := if counted = 0 then Occurrence.count before .verbose else counted
    pure (.run verbosity (Command.ofFlags name seen))

/-- Reads the command that help is asked about. -/
def readHelp : List String → Except UsageError Request
  | [] => .ok .help
  | [word] =>
    if word = "help" || (CommandName.ofWord? word).isSome then .ok .help
    else .error (.unknownCommand word)
  | _ :: word :: _ => .error (.unknownCommand word)

/-- Reads a whole command line. -/
def readArguments (words : List String) : Except UsageError Request := do
  let (seen, ending) ← readFlags Flag.common [] none words
  match ending with
  | .done => throw .missingCommand
  | .help => pure .help
  | .version => pure .version
  | .word word rest =>
    if word = "help" then readHelp rest
    else
      match CommandName.ofWord? word with
      | some name => readCommand seen name rest
      | none => throw (.unknownCommand word)

end EntityClasses.CommandLine
