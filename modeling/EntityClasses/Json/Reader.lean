import EntityClasses.Json.Number
import EntityClasses.Json.Quoted
import EntityClasses.Json.Value

/-! Reading JSON. A reader takes a value off the front of a text and leaves the rest. Arrays and objects
are nested up to a depth, and the next one is refused in front of its bracket. -/

namespace EntityClasses.Json

/-- What is read off the front of a text, and the rest of it. -/
abbrev Reader (α : Type) :=
  List Char → Except SyntaxError (α × List Char)

def isBlank (c : Char) : Bool :=
  c = ' ' || c = '\n' || c = '\t' || c = '\r'

def skipBlank (s : List Char) : List Char :=
  s.dropWhile isBlank

/-- Reads the rest of a word whose first letter stands in front. -/
def readWord (value : Value) : (letters : List Char) → Reader Value
  | [], s => .ok (value, s)
  | _ :: _, [] => .error (.here .endInValue [])
  | a :: letters, c :: s =>
    if a = c then readWord value letters s else .error (.next .expectedIdent (c :: s))

/-- Reads a value. Arrays and objects are left to `array` and `object`, which start at the bracket. -/
def readWith (array object : Reader Value) (s : List Char) :
    Except SyntaxError (Value × List Char) :=
  match skipBlank s with
  | [] => .error (.next .endInValue [])
  | c :: cs =>
    if c = 'n' then readWord .null ['u', 'l', 'l'] cs
    else if c = 't' then readWord (.bool true) ['r', 'u', 'e'] cs
    else if c = 'f' then readWord (.bool false) ['a', 'l', 's', 'e'] cs
    else if c = '"' then do
      let (text, rest) ← readString cs
      pure (.string text, rest)
    else if c = '[' then array (c :: cs)
    else if c = '\x7b' then object (c :: cs)
    else if c = '-' || c.isDigit then do
      let rest ← readNumber (c :: cs)
      pure (.number, rest)
    else .error (.next .expectedValue (c :: cs))

/-- Reads the items of an array behind an item. At most `fuel` of them are read. -/
def readMoreItems (item : Reader Value) (fuel : Nat) (s : List Char) :
    Except SyntaxError (List Value × List Char) :=
  match fuel, skipBlank s with
  | _, [] => .error (.next .endInList [])
  | 0, s => .error (.next .expectedListEnd s)
  | fuel + 1, c :: cs =>
    if c = ']' then .ok ([], cs)
    else if c = ',' then
      match skipBlank cs with
      | [] => .error (.next .endInValue [])
      | ']' :: rest => .error (.next .trailingComma (']' :: rest))
      | s => do
        let (value, rest) ← item s
        let (values, rest) ← readMoreItems item fuel rest
        pure (value :: values, rest)
    else .error (.next .expectedListEnd (c :: cs))

/-- Reads the items of an array behind its opening bracket. -/
def readItems (item : Reader Value) (fuel : Nat) (s : List Char) :
    Except SyntaxError (List Value × List Char) :=
  match skipBlank s with
  | [] => .error (.next .endInList [])
  | ']' :: rest => .ok ([], rest)
  | s => do
    let (value, rest) ← item s
    let (values, rest) ← readMoreItems item fuel rest
    pure (value :: values, rest)

/-- Reads a member of an object. -/
def readMember (item : Reader Value) (s : List Char) :
    Except SyntaxError ((String × Value) × List Char) :=
  match s with
  | [] => .error (.next .endInValue [])
  | '\x7d' :: _ => .error (.next .trailingComma s)
  | '"' :: cs => do
    let (key, rest) ← readString cs
    match skipBlank rest with
    | [] => throw (.next .endInObject [])
    | ':' :: rest =>
      let (value, rest) ← item rest
      pure ((key, value), rest)
    | rest => throw (.next .expectedColon rest)
  | _ => .error (.next .keyNotString s)

/-- Reads the members of an object behind a member. At most `fuel` of them are read. -/
def readMoreMembers (item : Reader Value) (fuel : Nat) (s : List Char) :
    Except SyntaxError (List (String × Value) × List Char) :=
  match fuel, skipBlank s with
  | _, [] => .error (.next .endInObject [])
  | 0, s => .error (.next .expectedObjectEnd s)
  | fuel + 1, c :: cs =>
    if c = '\x7d' then .ok ([], cs)
    else if c = ',' then do
      let (member, rest) ← readMember item (skipBlank cs)
      let (members, rest) ← readMoreMembers item fuel rest
      pure (member :: members, rest)
    else .error (.next .expectedObjectEnd (c :: cs))

/-- Reads the members of an object behind its opening brace. -/
def readMembers (item : Reader Value) (fuel : Nat) (s : List Char) :
    Except SyntaxError (List (String × Value) × List Char) :=
  match skipBlank s with
  | [] => .error (.next .endInObject [])
  | '\x7d' :: rest => .ok ([], rest)
  | s => do
    let (member, rest) ← readMember item s
    let (members, rest) ← readMoreMembers item fuel rest
    pure (member :: members, rest)

def tooDeep : Reader Value :=
  fun s => .error (.next .tooDeep s)

/-- Reads a value in which at most `depth` arrays and objects are open at once. -/
def readValue (fuel : Nat) : (depth : Nat) → Reader Value
  | 0 => readWith tooDeep tooDeep
  | depth + 1 =>
    readWith
      (fun s => do
        let (items, rest) ← readItems (readValue fuel depth) fuel s.tail
        pure (.array items, rest))
      (fun s => do
        let (members, rest) ← readMembers (readValue fuel depth) fuel s.tail
        pure (.object members, rest))

/-- The greatest number of arrays and objects that may be open at once. -/
def maxDepth : Nat :=
  127

/-- Reads the value at the front of a text. -/
def readFirst (s : List Char) : Except SyntaxError (Value × List Char) :=
  readValue s.length maxDepth s

/-- Refuses a text that is more than blanks. -/
def expectEnd (s : List Char) : Except SyntaxError Unit :=
  match skipBlank s with
  | [] => .ok ()
  | rest => .error (.next .trailingCharacters rest)

/-- The value that a text is. Nothing but blanks may stand behind it. -/
def parse (s : List Char) : Except SyntaxError Value := do
  let (value, rest) ← readFirst s
  expectEnd rest
  pure value

end EntityClasses.Json
