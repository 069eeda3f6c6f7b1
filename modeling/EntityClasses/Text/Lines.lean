/-! Cutting a text at a character: into parts that leave the character out, into pieces that keep each
newline at their end, and into lines that leave it out. -/

namespace EntityClasses.Text

/-- The parts of a text between the occurrences of `sep`. There is one part more than occurrences. -/
def partsAt (sep : Char) : List Char → List (List Char)
  | [] => [[]]
  | c :: cs =>
    if c = sep then [] :: partsAt sep cs
    else
      match partsAt sep cs with
      | [] => [[c]]
      | part :: parts => (c :: part) :: parts

theorem partsAt_ne_nil (sep : Char) (s : List Char) : partsAt sep s ≠ [] := by
  cases s with
  | nil => simp [partsAt]
  | cons c cs =>
      unfold partsAt
      split
      · simp
      · split <;> simp

/-- The pieces of a text, each up to and with its newline. A last piece may lack the newline; no piece
is empty. -/
def pieces : List Char → List (List Char)
  | [] => []
  | c :: cs =>
    if c = '\n' then [c] :: pieces cs
    else
      match pieces cs with
      | [] => [[c]]
      | piece :: rest => (c :: piece) :: rest

theorem flatten_pieces (s : List Char) : (pieces s).flatten = s := by
  induction s with
  | nil => rfl
  | cons c cs ih =>
      unfold pieces
      split
      · simp [ih]
      · match hp : pieces cs with
        | [] => rw [hp] at ih; simpa using ih
        | piece :: rest => rw [hp] at ih; simpa using ih

/-- A piece without its newline, and without one carriage return in front of that newline. -/
def withoutEnding (piece : List Char) : List Char :=
  match piece.reverse with
  | '\n' :: '\r' :: rest => rest.reverse
  | '\n' :: rest => rest.reverse
  | _ => piece

/-- The lines of a text. A carriage return that no newline follows stays in its line. -/
def lines (s : List Char) : List (List Char) :=
  (pieces s).map withoutEnding

end EntityClasses.Text
