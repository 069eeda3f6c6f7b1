import EntityClasses.TypeScript.Import

/-! The symbols that a file imports, by source. Sources and symbols keep the order of their first
insertion, and none is held twice. -/

namespace EntityClasses.TypeScript

/-- A list with `a` at its end, unless it is in the list already. -/
def insertOnce (as : List String) (a : String) : List String :=
  if a ∈ as then as else as ++ [a]

structure ImportTable where
  entries : List (String × List String)
deriving DecidableEq, Repr

namespace ImportTable

def empty : ImportTable :=
  ⟨[]⟩

/-- The entries with one more symbol of a source. -/
def addEntry (source symbol : String) :
    List (String × List String) → List (String × List String)
  | [] => [(source, [symbol])]
  | (other, symbols) :: entries =>
    if other = source then (other, insertOnce symbols symbol) :: entries
    else (other, symbols) :: addEntry source symbol entries

def add (table : ImportTable) (source symbol : String) : ImportTable :=
  ⟨addEntry source symbol table.entries⟩

/-- A source without symbols is not entered. -/
def addAll (table : ImportTable) (source : String) (symbols : List String) : ImportTable :=
  symbols.foldl (·.add source ·) table

def merge (table other : ImportTable) : ImportTable :=
  other.entries.foldl (fun table entry => table.addAll entry.1 entry.2) table

def symbols? (table : ImportTable) (source : String) : Option (List String) :=
  table.entries.lookup source

def hasSource (table : ImportTable) (source : String) : Bool :=
  (table.symbols? source).isSome

def hasSymbol (table : ImportTable) (source symbol : String) : Bool :=
  match table.symbols? source with
  | some symbols => symbol ∈ symbols
  | none => false

def size (table : ImportTable) : Nat :=
  table.entries.length

def isEmpty (table : ImportTable) : Bool :=
  table.entries.isEmpty

/-- A statement for each source that symbols are imported from. -/
def imports (table : ImportTable) : List Import :=
  (table.entries.filter (!·.2.isEmpty)).map fun entry => ⟨entry.1, entry.2⟩

end ImportTable

end EntityClasses.TypeScript
