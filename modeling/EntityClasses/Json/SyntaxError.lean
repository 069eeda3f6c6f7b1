import EntityClasses.Text.Position

/-! Why a text is no JSON value, and where a reader finds that out. -/

namespace EntityClasses.Json

inductive Cause where
  | endInValue
  | endInList
  | endInObject
  | endInString
  | expectedValue
  | expectedIdent
  | expectedColon
  | expectedListEnd
  | expectedObjectEnd
  | keyNotString
  | trailingComma
  | trailingCharacters
  | invalidNumber
  | numberOutOfRange
  | invalidEscape
  | controlCharacter
  | loneSurrogate
  | unpairedSurrogate
  | tooDeep
deriving DecidableEq, Repr

def Cause.message : Cause → String
  | endInValue => "EOF while parsing a value"
  | endInList => "EOF while parsing a list"
  | endInObject => "EOF while parsing an object"
  | endInString => "EOF while parsing a string"
  | expectedValue => "expected value"
  | expectedIdent => "expected ident"
  | expectedColon => "expected `:`"
  | expectedListEnd => "expected `,` or `]`"
  | expectedObjectEnd => "expected `,` or `\x7d`"
  | keyNotString => "key must be a string"
  | trailingComma => "trailing comma"
  | trailingCharacters => "trailing characters"
  | invalidNumber => "invalid number"
  | numberOutOfRange => "number out of range"
  | invalidEscape => "invalid escape"
  | controlCharacter => "control character (\\u0000-\\u001F) found while parsing a string"
  | loneSurrogate => "lone leading surrogate in hex escape"
  | unpairedSurrogate => "unexpected end of hex escape"
  | tooDeep => "recursion limit exceeded"

/-- A reader has stopped in front of `rest`, having looked at the first `seen` bytes of it. -/
structure SyntaxError where
  cause : Cause
  rest : List Char
  seen : Nat
deriving DecidableEq, Repr

namespace SyntaxError

/-- An error between two characters. -/
def here (cause : Cause) (rest : List Char) : SyntaxError :=
  ⟨cause, rest, 0⟩

/-- An error at the next character, or at the end of the text. -/
def next (cause : Cause) (rest : List Char) : SyntaxError :=
  ⟨cause, rest, 1⟩

/-- The number of bytes that have been looked at. -/
def offset (source : List Char) (error : SyntaxError) : Nat :=
  Text.size source - Text.size error.rest + min error.seen (Text.size error.rest)

def position (source : List Char) (error : SyntaxError) : Text.Position :=
  Text.positionAt source (error.offset source)

end SyntaxError

end EntityClasses.Json
