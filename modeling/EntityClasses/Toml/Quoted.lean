import EntityClasses.Text.Digits

/-! Reading TOML strings: on one line or on several, with escapes or as they stand. -/

namespace EntityClasses.Toml

open Text

/-- The characters that stand in no string and no comment. -/
def isControl (c : Char) : Bool :=
  (c.toNat < 0x20 && c != '\t') || c.toNat = 0x7F

/-- The character that the first `count` hexadecimal digits of a text name. -/
def code? (count : Nat) (s : List Char) : Option Char :=
  let digits := s.take count
  if digits.length < count then none
  else
    match number? 16 digits with
    | some code => if code.isValidChar then some (Char.ofNat code) else none
    | none => none

/-- Reads an escape behind its backslash: the character, and how many characters stand for it. -/
def readEscape : List Char → Option (Char × Nat)
  | 'b' :: _ => some ('\x08', 2)
  | 't' :: _ => some ('\t', 2)
  | 'n' :: _ => some ('\n', 2)
  | 'f' :: _ => some ('\x0c', 2)
  | 'r' :: _ => some ('\r', 2)
  | 'e' :: _ => some ('\x1b', 2)
  | '"' :: _ => some ('"', 2)
  | '\\' :: _ => some ('\\', 2)
  | 'x' :: s => (code? 2 s).map (·, 4)
  | 'u' :: s => (code? 4 s).map (·, 6)
  | 'U' :: s => (code? 8 s).map (·, 10)
  | _ => none

/-- The characters of a string on one line up to its closing quote, and the text behind the quote. The
first `skip` characters belong to an escape that has been read. -/
def readBasic (skip : Nat) (s : List Char) : Option (List Char × List Char) :=
  match skip, s with
  | _, [] => none
  | skip + 1, _ :: cs => readBasic skip cs
  | 0, c :: cs =>
    if c = '"' then some ([], cs)
    else if c = '\\' then do
      let (escaped, count) ← readEscape cs
      let (text, rest) ← readBasic (count - 1) cs
      pure (escaped :: text, rest)
    else if isControl c then none
    else do
      let (text, rest) ← readBasic 0 cs
      pure (c :: text, rest)

/-- The same without escapes. -/
def readLiteral : List Char → Option (List Char × List Char)
  | [] => none
  | c :: cs =>
    if c = '\'' then some ([], cs)
    else if isControl c then none
    else do
      let (text, rest) ← readLiteral cs
      pure (c :: text, rest)

/-- The blanks and newlines at the front of a text. -/
def blankRun : List Char → List Char
  | [] => []
  | '\r' :: '\n' :: cs => '\r' :: '\n' :: blankRun cs
  | c :: cs => if c = ' ' || c = '\t' || c = '\n' then c :: blankRun cs else []

/-- The end of a string on several lines: the quotes that belong to the string, of which there are at
most two in front of the closing three, and the text behind them all. -/
def closing? (quote : Char) : List Char → Option (List Char × List Char)
  | a :: b :: c :: rest =>
    if a = quote && b = quote && c = quote then
      match rest with
      | d :: e :: unread =>
        if d = quote && e = quote then some ([quote, quote], unread)
        else if d = quote then some ([quote], e :: unread)
        else some ([], d :: e :: unread)
      | [d] => if d = quote then some ([quote], []) else some ([], [d])
      | [] => some ([], [])
    else none
  | _ => none

/-- Whether a character may stand in front of a text in a string on several lines. A carriage return
needs its newline. -/
def isAllowedBefore (c : Char) (s : List Char) : Bool :=
  c = '\n' || (c = '\r' && s.head? = some '\n') || !isControl c

/-- The characters of a string on several lines up to its closing quotes, and the text behind the quotes.
The first `skip` characters belong to an escape that has been read, or to blanks that are left out: a
backslash at the end of a line joins it to the next character that is not blank. -/
def readMultiBasic (skip : Nat) (s : List Char) : Option (List Char × List Char) :=
  match skip, s with
  | _, [] => none
  | skip + 1, _ :: cs => readMultiBasic skip cs
  | 0, c :: cs =>
    match closing? '"' (c :: cs) with
    | some ending => some ending
    | none =>
      if c = '\\' then
        let blanks := blankRun cs
        if '\n' ∈ blanks then readMultiBasic blanks.length cs
        else do
          let (escaped, count) ← readEscape cs
          let (text, rest) ← readMultiBasic (count - 1) cs
          pure (escaped :: text, rest)
      else if isAllowedBefore c cs then do
        let (text, rest) ← readMultiBasic 0 cs
        pure (c :: text, rest)
      else none

/-- The same without escapes. -/
def readMultiLiteral : List Char → Option (List Char × List Char)
  | [] => none
  | c :: cs =>
    match closing? '\'' (c :: cs) with
    | some ending => some ending
    | none =>
      if isAllowedBefore c cs then do
        let (text, rest) ← readMultiLiteral cs
        pure (c :: text, rest)
      else none

/-- A text without the newline at its front. -/
def skipNewline : List Char → List Char
  | '\n' :: s => s
  | '\r' :: '\n' :: s => s
  | s => s

/-- Reads a string on one line or on several. -/
def readString : List Char → Option (List Char × List Char)
  | '"' :: '"' :: '"' :: s => readMultiBasic 0 (skipNewline s)
  | '"' :: s => readBasic 0 s
  | '\'' :: '\'' :: '\'' :: s => readMultiLiteral (skipNewline s)
  | '\'' :: s => readLiteral s
  | _ => none

end EntityClasses.Toml
