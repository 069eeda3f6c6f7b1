import EntityClasses.Text.Blank
import EntityClasses.Toml.Quoted
import EntityClasses.Toml.Scalar
import EntityClasses.Toml.Table

/-! Reading TOML. A reader takes something off the front of a text and leaves the rest. The places of
keys and values are counted from the end of the text, of which `total` is the size. -/

namespace EntityClasses.Toml

open Text

/-- What is read off the front of a text, and the rest of it. -/
abbrev Reader (α : Type) :=
  List Char → Option (α × List Char)

def isSpace (c : Char) : Bool :=
  c = ' ' || c = '\t'

def skipSpace (s : List Char) : List Char :=
  s.dropWhile isSpace

/-- A text without the spaces, newlines and comments at its front. -/
def skipFiller (inComment : Bool) : List Char → List Char
  | [] => []
  | '\r' :: '\n' :: cs => skipFiller false cs
  | c :: cs =>
    if c = '\n' then skipFiller false cs
    else if inComment then (if isControl c then c :: cs else skipFiller true cs)
    else if isSpace c then skipFiller false cs
    else if c = '#' then skipFiller true cs
    else c :: cs

/-- Reads the rest of a line on which only a comment may follow. -/
def endLine (s : List Char) : Option (List Char) :=
  let rest :=
    match skipSpace s with
    | '#' :: cs => cs.dropWhile (!isControl ·)
    | rest => rest
  match rest with
  | [] => some []
  | '\n' :: rest => some rest
  | '\r' :: '\n' :: rest => some rest
  | _ => none

def isBare (c : Char) : Bool :=
  c.isAlphanum || c = '_' || c = '-'

/-- Reads one part of a key. -/
def readKey (total : Nat) : Reader Key := fun s => do
  let (name, rest) ←
    match s with
    | '"' :: cs => readBasic 0 cs
    | '\'' :: cs => readLiteral cs
    | _ =>
      match s.takeWhile isBare with
      | [] => none
      | name => some (name, s.dropWhile isBare)
  pure (⟨String.ofList name, Span.between total s rest⟩, rest)

/-- Reads a key of at most `limit` parts: the parts in front of the last one, and the last one. -/
def readPath (total : Nat) : (limit : Nat) → Reader (List Key × Key)
  | 0, _ => none
  | limit + 1, s => do
    let (key, rest) ← readKey total s
    match skipSpace rest with
    | '.' :: rest =>
      let ((path, last), rest) ← readPath total limit (skipSpace rest)
      pure ((key :: path, last), rest)
    | rest => pure (([], key), rest)

/-- The greatest number of parts of a key, and of arrays and tables in braces that are open at once. -/
def maxDepth : Nat :=
  80

/-- The characters that can stand in a word. A quote ends no word that it does not start. -/
def isWordChar (c : Char) : Bool :=
  c ∉ [' ', '\t', '\r', '\n', '#', ',', '=', '[', ']', '\x7b', '\x7d']

/-- Whether a word that is not quoted starts here. -/
def startsWord : List Char → Bool
  | [] => false
  | c :: _ => isWordChar c && c ≠ '"' && c ≠ '\''

/-- The words at the front of a text with the spaces between them, and the text behind the last word. -/
def takeWords : List Char → List Char × List Char
  | [] => ([], [])
  | c :: cs =>
    if isWordChar c || (isSpace c && startsWord (skipSpace cs)) then
      let (words, rest) := takeWords cs
      (c :: words, rest)
    else ([], c :: cs)

/-- Reads a value that is not quoted. Words with spaces between them are one value, such as a date and a
time. -/
def readScalar (total : Nat) : Reader Value := fun s =>
  let (words, rest) := takeWords s
  (scalar? (Span.between total s rest) words).map (·, rest)

/-- Reads the items of an array up to its closing bracket. At most `fuel` of them are read. -/
def readItems (item : Reader Value) (fuel : Nat) (s : List Char) :
    Option (List Value × List Char) :=
  match fuel, skipFiller false s with
  | _, ']' :: rest => some ([], rest)
  | 0, _ => none
  | fuel + 1, s => do
    let (value, rest) ← item s
    match skipFiller false rest with
    | ',' :: rest =>
      let (values, rest) ← readItems item fuel rest
      pure (value :: values, rest)
    | ']' :: rest => pure ([value], rest)
    | _ => none

/-- Reads a key, an equals sign and a value. What `skip` removes may stand around the sign. -/
def readAssignment (total : Nat) (item : Reader Value) (skip : List Char → List Char) :
    Reader Assignment := fun s => do
  let ((path, key), rest) ← readPath total maxDepth s
  let rest ← skip? '=' (skip rest)
  let (value, rest) ← item (skip rest)
  pure (⟨path, key, value⟩, rest)

/-- Reads the assignments of a table up to its closing brace, over several lines if need be. At most
`fuel` of them are read. -/
def readAssignments (total : Nat) (item : Reader Value) (fuel : Nat) (s : List Char) :
    Option (List Assignment × List Char) :=
  match fuel, skipFiller false s with
  | _, '\x7d' :: rest => some ([], rest)
  | 0, _ => none
  | fuel + 1, s => do
    let (assignment, rest) ← readAssignment total item (skipFiller false) s
    match skipFiller false rest with
    | ',' :: rest =>
      let (assignments, rest) ← readAssignments total item fuel rest
      pure (assignment :: assignments, rest)
    | '\x7d' :: rest => pure ([assignment], rest)
    | _ => none

/-- Reads a string, or a value that is not quoted. -/
def readLeaf (total : Nat) : Reader Value := fun s =>
  if s.head? = some '"' || s.head? = some '\'' then do
    let (text, rest) ← readString s
    pure (.string (Span.between total s rest) (String.ofList text), rest)
  else readScalar total s

/-- Reads a value in which at most `depth` arrays and tables in braces are open at once. No array or table
has more than `fuel` items. -/
def readValue (total fuel : Nat) : (depth : Nat) → Reader Value
  | 0, s => if s.head? = some '[' || s.head? = some '\x7b' then none else readLeaf total s
  | depth + 1, s =>
    match s with
    | '[' :: cs => do
      let (items, rest) ← readItems (readValue total fuel depth) fuel cs
      pure (.array (Span.between total s rest) false items, rest)
    | '\x7b' :: cs => do
      let (assignments, rest) ← readAssignments total (readValue total fuel depth) fuel cs
      pure (.table (Span.between total s rest) .inline (← inlineTable? assignments), rest)
    | _ => readLeaf total s

/-- Reads a header and the rest of its line. -/
def readHeader (total : Nat) (s : List Char) : Option (Section × List Char) := do
  let isRepeated := (dropStart? ['[', '['] s).isSome
  let ((path, key), rest) ← readPath total maxDepth (skipSpace (s.drop (if isRepeated then 2 else 1)))
  let rest ← skip? ']' rest
  let rest ← if isRepeated then skip? ']' rest else some rest
  pure (⟨path, key, isRepeated, Span.between total s rest, []⟩, ← endLine rest)

/-- Reads assignments and sections to the end of the text. At most `fuel` of them are read, headers
included. -/
def readLines (total : Nat) (item : Reader Value) (fuel : Nat) (s : List Char) :
    Option (List Assignment × List Section) :=
  match fuel, skipFiller false s with
  | _, [] => some ([], [])
  | 0, _ => none
  | fuel + 1, '[' :: cs => do
    let (header, rest) ← readHeader total ('[' :: cs)
    let (assignments, sections) ← readLines total item fuel rest
    pure ([], { header with assignments } :: sections)
  | fuel + 1, s => do
    let (assignment, rest) ← readAssignment total item skipSpace s
    let (assignments, sections) ← readLines total item fuel (← endLine rest)
    pure (assignment :: assignments, sections)

/-- A text without the byte order mark at its front. -/
def skipMark : List Char → List Char
  | '\uFEFF' :: s => s
  | s => s

/-- The entries of a TOML document. -/
def parse (s : List Char) : Option Entries := do
  let item := readValue (size s) s.length maxDepth
  let (assignments, sections) ← readLines (size s) item s.length (skipMark s)
  document? assignments sections

end EntityClasses.Toml
