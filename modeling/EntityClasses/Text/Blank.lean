/-! Blank characters and their removal from the ends of a text. A character is blank when it has the
Unicode property White_Space; the property holds of 25 characters. -/

namespace EntityClasses.Text

/-- Closed ranges of code points, ascending and apart. -/
def blankRanges : List (Nat × Nat) :=
  [(0x09, 0x0D), (0x20, 0x20), (0x85, 0x85), (0xA0, 0xA0), (0x1680, 0x1680), (0x2000, 0x200A),
   (0x2028, 0x2029), (0x202F, 0x202F), (0x205F, 0x205F), (0x3000, 0x3000)]

def isBlank (c : Char) : Bool :=
  blankRanges.any fun range => range.1 ≤ c.toNat && c.toNat ≤ range.2

def trimStart (s : List Char) : List Char :=
  s.dropWhile isBlank

def trimEnd (s : List Char) : List Char :=
  (trimStart s.reverse).reverse

def trim (s : List Char) : List Char :=
  trimEnd (trimStart s)

/-- What is left of `s` after the word `start`, if `s` starts with it. -/
def dropStart? : (start s : List Char) → Option (List Char)
  | [], s => some s
  | _ :: _, [] => none
  | a :: start, c :: s => if a = c then dropStart? start s else none

/-- What is left of `s` before the word `ending`, if `s` ends with it. -/
def dropEnd? (ending s : List Char) : Option (List Char) :=
  (dropStart? ending.reverse s.reverse).map List.reverse

end EntityClasses.Text
