import EntityClasses.Text.Blank

/-! Finding a word in a text. -/

namespace EntityClasses.Text

/-- What stands in front of each occurrence of `word` in `s`, read backwards; `before` stands in front of
`s`. Occurrences do not overlap: the first `skip` characters of `s` belong to one already. -/
def occurrencesFrom (word before : List Char) (skip : Nat) (s : List Char) : List (List Char) :=
  match skip, s with
  | _, [] => []
  | skip + 1, c :: cs => occurrencesFrom word (c :: before) skip cs
  | 0, c :: cs =>
    if (dropStart? word (c :: cs)).isSome then
      before :: occurrencesFrom word (c :: before) (word.length - 1) cs
    else occurrencesFrom word (c :: before) 0 cs

/-- What stands in front of each occurrence of a word that is not empty, read backwards. -/
def occurrences (word s : List Char) : List (List Char) :=
  occurrencesFrom word [] 0 s

end EntityClasses.Text
