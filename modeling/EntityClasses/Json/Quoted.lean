import EntityClasses.Json.SyntaxError
import EntityClasses.Text.Digits

/-! Reading JSON strings. A character outside the basic plane is escaped as two surrogates, which stand
together. -/

namespace EntityClasses.Json

/-- Reads four hexadecimal digits. Four bytes are taken before they are looked at. -/
def readHex (s : List Char) : Except SyntaxError (Nat × List Char) :=
  if Text.size (s.take 4) < 4 then .error (.here .endInString [])
  else
    match s with
    | a :: b :: c :: d :: rest =>
      match Text.number? 16 [a, b, c, d] with
      | some number => .ok (number, rest)
      | none => .error ⟨.invalidEscape, s, 4⟩
    | _ => .error ⟨.invalidEscape, s, 4⟩

def isTrailing (unit : Nat) : Bool :=
  0xDC00 ≤ unit && unit ≤ 0xDFFF

def isLeading (unit : Nat) : Bool :=
  0xD800 ≤ unit && unit ≤ 0xDBFF

/-- The character of a leading and a trailing surrogate. -/
def pairChar (leading trailing : Nat) : Char :=
  Char.ofNat (0x10000 + (leading - 0xD800) * 0x400 + (trailing - 0xDC00))

/-- Reads one character that has to stand here in a string. -/
def expectInString (expected : Char) (s : List Char) : Except SyntaxError (List Char) :=
  match s with
  | [] => .error (.here .endInString [])
  | c :: rest => if c = expected then .ok rest else .error (.next .unpairedSurrogate s)

/-- Reads an escape behind its backslash and its `u`, which are counted with it. -/
def readUnicode (s : List Char) : Except SyntaxError (Char × Nat) := do
  let (unit, rest) ← readHex s
  if isTrailing unit then throw (.here .loneSurrogate rest)
  else if isLeading unit then
    let (trailing, rest) ← readHex (← expectInString 'u' (← expectInString '\\' rest))
    if isTrailing trailing then pure (pairChar unit trailing, 12)
    else throw (.here .loneSurrogate rest)
  else pure (Char.ofNat unit, 6)

/-- Reads an escape behind its backslash: the character, and how many characters stand for it. -/
def readEscape (s : List Char) : Except SyntaxError (Char × Nat) :=
  match s with
  | [] => .error (.here .endInString [])
  | '"' :: _ => .ok ('"', 2)
  | '\\' :: _ => .ok ('\\', 2)
  | '/' :: _ => .ok ('/', 2)
  | 'b' :: _ => .ok ('\x08', 2)
  | 'f' :: _ => .ok ('\x0c', 2)
  | 'n' :: _ => .ok ('\n', 2)
  | 'r' :: _ => .ok ('\r', 2)
  | 't' :: _ => .ok ('\t', 2)
  | 'u' :: rest => readUnicode rest
  | _ => .error (.next .invalidEscape s)

/-- The characters of a string up to its closing quote, and the text behind the quote. The first `skip`
characters belong to an escape that has been read. -/
def readCharacters (skip : Nat) (s : List Char) : Except SyntaxError (List Char × List Char) :=
  match skip, s with
  | _, [] => .error (.here .endInString [])
  | skip + 1, _ :: cs => readCharacters skip cs
  | 0, c :: cs =>
    if c = '"' then .ok ([], cs)
    else if c = '\\' then do
      let (escaped, count) ← readEscape cs
      let (text, rest) ← readCharacters (count - 1) cs
      pure (escaped :: text, rest)
    else if c.toNat < 0x20 then .error (.next .controlCharacter (c :: cs))
    else do
      let (text, rest) ← readCharacters 0 cs
      pure (c :: text, rest)

/-- Reads a string behind its opening quote. -/
def readString (s : List Char) : Except SyntaxError (String × List Char) := do
  let (text, rest) ← readCharacters 0 s
  pure (String.ofList text, rest)

end EntityClasses.Json
