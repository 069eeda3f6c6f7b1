/-! The indentation of generated code. -/

namespace EntityClasses.Code

inductive Indent where
  | spaces (width : Nat)
  | tab
deriving DecidableEq, Repr

namespace Indent

/-- Two spaces, which is also what a width other than two, four and eight stands for. -/
def standard : Indent :=
  .spaces 2

/-- The text of one level. -/
def unit : Indent → String
  | .spaces 4 => "    "
  | .spaces 8 => "        "
  | .spaces _ => "  "
  | .tab => "\t"

end Indent

end EntityClasses.Code
