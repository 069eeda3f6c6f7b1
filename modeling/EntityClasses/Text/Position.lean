import EntityClasses.Text.Lines

/-! Places in a text. Offsets and lengths count UTF-8 bytes, and so do columns. A place is given either
as an offset or as a line and a column, and `offsetOf` leads from the second to the first. -/

namespace EntityClasses.Text

/-- The number of UTF-8 bytes of a text. -/
def size (s : List Char) : Nat :=
  s.foldr (fun c total => c.utf8Size + total) 0

theorem size_nil : size [] = 0 := rfl

theorem size_cons (c : Char) (s : List Char) : size (c :: s) = c.utf8Size + size s :=
  rfl

theorem size_append (s t : List Char) : size (s ++ t) = size s + size t := by
  induction s with
  | nil => rw [List.nil_append, size_nil, Nat.zero_add]
  | cons c cs ih => rw [List.cons_append, size_cons, size_cons, ih, Nat.add_assoc]

/-- A stretch of a text. -/
structure Span where
  offset : Nat
  length : Nat
deriving DecidableEq, Repr

/-- The stretch of a text of `total` bytes from where `before` was left to where `after` is left. -/
def Span.between (total : Nat) (before after : List Char) : Span :=
  ⟨total - size before, size before - size after⟩

structure Position where
  /-- One more than the newlines before the place. -/
  line : Nat
  /-- The bytes between the last newline before the place and the place. -/
  column : Nat
deriving DecidableEq, Repr

/-- The position reached from `p` over the first `n` bytes of a text. -/
def Position.advance : Position → List Char → Nat → Position
  | p, [], _ => p
  | p, c :: cs, n =>
    if n = 0 then p
    else if c = '\n' then Position.advance ⟨p.line + 1, 0⟩ cs (n - 1)
    else Position.advance ⟨p.line, p.column + min n c.utf8Size⟩ cs (n - c.utf8Size)

/-- The position behind the first `n` bytes of a text. -/
def positionAt (s : List Char) (n : Nat) : Position :=
  Position.advance ⟨1, 0⟩ s n

/-- The offset of a line and a column, both counted from one. A column outside its line is moved to the
nearer end of the line; there is no offset for a line that the text does not have. -/
def offsetOf (s : List Char) (p : Position) : Option Nat :=
  if p.line = 0 then none
  else
    (pieces s)[p.line - 1]?.map fun piece =>
      size ((pieces s).take (p.line - 1)).flatten + min (p.column - 1) (size piece)

end EntityClasses.Text
