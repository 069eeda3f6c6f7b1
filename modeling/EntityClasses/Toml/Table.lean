import EntityClasses.Toml.Value

/-! Building tables from keys and values. A key is given once, and a table that has been given in one way
cannot be continued in another. -/

namespace EntityClasses.Toml

open Text

/-- The entries of a table. -/
abbrev Entries := List (Key × Value)

namespace Entries

def find? (entries : Entries) (name : String) : Option Value :=
  (List.find? (·.1.name = name) entries).map (·.2)

/-- The entries with a value put in the place of an older one, under the older key, or behind all
others. -/
def put (key : Key) (value : Value) : Entries → Entries
  | [] => [(key, value)]
  | entry :: entries =>
    if entry.1.name = key.name then (entry.1, value) :: entries else entry :: put key value entries

/-- The entries with a value under a new spelling of its key. -/
def replace (key : Key) (value : Value) (entries : Entries) : Entries :=
  entries.filter (·.1.name ≠ key.name) ++ [(key, value)]

/-- The entries with a value under a key that is new. -/
def add? (key : Key) (value : Value) (entries : Entries) : Option Entries :=
  if (find? entries key.name).isSome then none else some (entries ++ [(key, value)])

end Entries

/-- The last item of a list and the items in front of it. -/
def splitLast? {α : Type} (items : List α) : Option (List α × α) :=
  items.getLast?.map (items.dropLast, ·)

/-- Changes the table at the end of a path. Tables that are missing on the way come about with the origin
`missing`; one that is there already may be gone through if its origin is open. Of the tables of a
repeated header the path goes through the last one. The change learns the origin of its table. -/
def changeAt (missing : Origin) (isOpen : Origin → Bool)
    (change : Origin → Entries → Option Entries) :
    (path : List Key) → Origin → Entries → Option Entries
  | [], origin, entries => change origin entries
  | key :: path, _, entries =>
    match Entries.find? entries key.name with
    | none => do
      let inner ← changeAt missing isOpen change path missing []
      pure (Entries.put key (.table key.span missing inner) entries)
    | some (.table span origin inner) =>
      if isOpen origin then do
        let inner ← changeAt missing isOpen change path origin inner
        pure (Entries.put key (.table span origin inner) entries)
      else none
    | some (.array span true items) =>
      match splitLast? items with
      | some (before, .table last origin inner) => do
        let inner ← changeAt missing isOpen change path origin inner
        pure (Entries.put key (.array span true (before ++ [.table last origin inner])) entries)
      | _ => none
    | some _ => none

/-- A key and a value, as they are written. The path holds the parts of the key in front of its last
one. -/
structure Assignment where
  path : List Key
  key : Key
  value : Value

/-- Adds a value to the table that the path of its key leads to. A key with a path needs a table that
such keys have made, of origin `made`, and a key without one a table that they have not. -/
def Assignment.apply (made : Origin) (isOpen : Origin → Bool) (assignment : Assignment) :
    Origin → Entries → Option Entries :=
  changeAt made isOpen
    (fun origin entries =>
      if (origin = made) ↔ assignment.path ≠ [] then
        entries.add? assignment.key assignment.value
      else none)
    assignment.path

/-- The table that assignments in braces make. -/
def inlineTable? (assignments : List Assignment) : Option Entries :=
  assignments.foldlM
    (fun entries assignment =>
      assignment.apply .inlineDotted (· = .inlineDotted) .inline entries) []

/-- The entries of a table with more assignments. -/
def assign? (assignments : List Assignment) (origin : Origin) (entries : Entries) :
    Option Entries :=
  assignments.foldlM
    (fun entries assignment =>
      assignment.apply .dotted (fun origin => origin = .dotted || origin = .implied) origin entries)
    entries

/-- A header and the assignments under it. -/
structure Section where
  path : List Key
  key : Key
  isRepeated : Bool
  span : Span
  assignments : List Assignment

namespace Section

/-- Adds the table of a section. A plain header may name a table that headers have led through; a repeated
header adds to the tables of the same header. -/
def addTo (part : Section) (entries : Entries) : Option Entries :=
  match part.isRepeated, entries.find? part.key.name with
  | false, none => do
    let inner ← assign? part.assignments .header []
    entries.add? part.key (.table part.span .header inner)
  | false, some (.table _ .implied inner) => do
    let inner ← assign? part.assignments .header inner
    pure (entries.replace part.key (.table part.span .header inner))
  | true, none => do
    let inner ← assign? part.assignments .header []
    entries.add? part.key (.array part.span true [.table part.span .header inner])
  | true, some (.array span true items) => do
    let inner ← assign? part.assignments .header []
    pure (entries.put part.key
      (.array span true (items ++ [.table part.span .header inner])))
  | _, _ => none

def isOpen : Origin → Bool
  | .header | .implied | .dotted => true
  | .inline | .inlineDotted => false

def apply (part : Section) (entries : Entries) : Option Entries :=
  changeAt .implied isOpen (fun _ entries => part.addTo entries) part.path .header entries

end Section

/-- The table of a document: the assignments in front of the first header, and the sections. -/
def document? (assignments : List Assignment) (sections : List Section) : Option Entries := do
  let entries ← assign? assignments .header []
  sections.foldlM (fun entries part => part.apply entries) entries

end EntityClasses.Toml
