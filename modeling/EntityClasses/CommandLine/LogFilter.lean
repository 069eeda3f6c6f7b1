import EntityClasses.Config.Environment
import EntityClasses.Text.Digits
import EntityClasses.Text.Position

/-! Which notes are logged. A filter is a list of directives with commas between them, such as `info` or
`place=debug`; of those that apply to a note the most specific one decides. -/

namespace EntityClasses.CommandLine

open Text

inductive LogLevel where
  | off
  | error
  | warn
  | info
  | debug
  | trace
deriving DecidableEq, Repr

namespace LogLevel

/-- A higher level shows more. -/
def rank : LogLevel → Nat
  | off => 0
  | error => 1
  | warn => 2
  | info => 3
  | debug => 4
  | trace => 5

def all : List LogLevel :=
  [off, error, warn, info, debug, trace]

def name : LogLevel → String
  | off => "off"
  | error => "error"
  | warn => "warn"
  | info => "info"
  | debug => "debug"
  | trace => "trace"

/-- The number that digits stand for, with a plus sign if need be. -/
def number? (s : List Char) : Option Nat :=
  match (dropStart? ['+'] s).getD s with
  | [] => none
  | digits => Text.number? 10 digits

/-- The level with this name, in capitals or not, or with this rank. -/
def ofText? (s : List Char) : Option LogLevel :=
  all.find? fun level => number? s = some level.rank || s.map Char.toLower = level.name.toList

end LogLevel

/-- A rule for the notes that come from one place, from one span or with one field, or for all notes. -/
structure LogDirective where
  place : Option (List Char)
  span : Option (List Char)
  field : Option (List Char)
  level : LogLevel
deriving DecidableEq, Repr

namespace LogDirective

/-- The level behind the equals sign of a directive; without a name it is the highest one. -/
def levelBehind? : List Char → Option LogLevel
  | [] => some .trace
  | '=' :: [] => some .trace
  | '=' :: s => LogLevel.ofText? s
  | _ => none

/-- The rest of a directive behind its opening bracket: a span, a field in braces or both, and a level. -/
def parseSpan? (place : Option (List Char)) (s : List Char) : Option LogDirective :=
  let isEnd := fun c => c = ']' || c = '\x7b'
  let span := s.takeWhile (!isEnd ·)
  match s.dropWhile (!isEnd ·) with
  | ']' :: rest => (levelBehind? rest).map fun level => ⟨place, some span, none, level⟩
  | '\x7b' :: rest =>
    match rest.takeWhile (· ≠ '\x7d'), rest.dropWhile (· ≠ '\x7d') with
    | [], _ => none
    | field, '\x7d' :: ']' :: rest =>
      (levelBehind? rest).map fun level =>
        ⟨place, if span = [] then none else some span, some field, level⟩
    | _, _ => none
  | _ => none

/-- Whether a place can start with a character. A character beyond ASCII counts as a letter. -/
def isPlaceStart (c : Char) : Bool :=
  c.isAlphanum || c = '-' || c = ':' || c = '_' || 0x80 ≤ c.toNat

/-- Reads a directive: a level, or a place, a span or a field with a level. -/
def parse? (s : List Char) : Option LogDirective :=
  match s with
  | [] => none
  | '[' :: rest => parseSpan? none rest
  | c :: _ =>
    if !isPlaceStart c then none
    else
      let isEnd := fun c => c = '=' || c = '['
      let word := s.takeWhile (!isEnd ·)
      match s.dropWhile (!isEnd ·) with
      | [] =>
        match LogLevel.ofText? word with
        | some level => some ⟨none, none, none, level⟩
        | none => some ⟨some word, none, none, .trace⟩
      | '[' :: rest => parseSpan? (some word) rest
      | rest => (levelBehind? rest).map fun level => ⟨some word, none, none, level⟩

/-- Whether a directive applies to a note that has no span and only a message for a field. -/
def appliesTo (place : String) (directive : LogDirective) : Bool :=
  directive.place.all (fun word => (dropStart? word place.toList).isSome) &&
    directive.span.isNone && directive.field.all (· = "message".toList)

/-- Longer places are more specific, and so are fields. -/
def specificity (directive : LogDirective) : Nat :=
  2 * (directive.place.map size).getD 0 + (if directive.field.isSome then 1 else 0)

/-- The more specific of two directives, the second one if they are equally specific. -/
def moreSpecific (best : Option LogDirective) (directive : LogDirective) : Option LogDirective :=
  match best with
  | some known => if directive.specificity < known.specificity then known else directive
  | none => some directive

end LogDirective

abbrev LogFilter := List LogDirective

namespace LogFilter

/-- The filter that a text gives. -/
def parse? (text : String) : Option LogFilter :=
  ((partsAt ',' text.toList).filter (· ≠ [])).mapM LogDirective.parse?

def ofLevel (level : LogLevel) : LogFilter :=
  [⟨none, none, none, level⟩]

/-- The level up to which the notes from a place are shown. A filter without directives shows errors. -/
def levelAt (filter : LogFilter) (place : String) : LogLevel :=
  if filter.isEmpty then .error
  else
    match (filter.filter (·.appliesTo place)).foldl LogDirective.moreSpecific none with
    | some directive => directive.level
    | none => .off

/-- The filter of the environment; without one, the filter that a verbosity stands for. -/
def ofEnvironment (environment : Environment) (verbosity : Nat) : LogFilter :=
  match (environment "RUST_LOG").bind parse? with
  | some filter => filter
  | none => ofLevel (if verbosity = 0 then .warn else if verbosity = 1 then .info else .debug)

end LogFilter

end EntityClasses.CommandLine
