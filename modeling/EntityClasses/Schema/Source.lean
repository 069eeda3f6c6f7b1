import EntityClasses.Text.Position
import EntityClasses.Text.Search

/-! A text with the name under which errors speak of it. -/

namespace EntityClasses

structure SourceText where
  name : String
  text : String
deriving DecidableEq, Repr

namespace SourceText

open Text

def chars (source : SourceText) : List Char :=
  source.text.toList

def size (source : SourceText) : Nat :=
  Text.size source.chars

/-- Whether a text, read backwards, ends in the key `name` and a colon. -/
def endsInNameKey (before : List Char) : Bool :=
  match trimStart before with
  | ':' :: rest => (dropStart? ['"', 'e', 'm', 'a', 'n', '"'] (trimStart rest)).isSome
  | _ => false

/-- The places where `name`, in quotes, stands behind a key `name`. -/
def namePlaces (source : SourceText) (name : String) : List Span :=
  let word := '"' :: name.toList ++ ['"']
  ((occurrences word source.chars).filter endsInNameKey).map fun before =>
    ⟨Text.size before + 1, Text.size name.toList⟩

/-- The second of these places, where a name that is declared twice is declared again. -/
def secondNamePlace? (source : SourceText) (name : String) : Option Span :=
  (source.namePlaces name)[1]?

end SourceText

end EntityClasses
