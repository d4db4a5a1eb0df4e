/-! # Overflow

    A result that does not fit in what should hold it. It cannot be handled: the operation
    that made it ends there and then, and what it had done before stays done.
-/

namespace ExecutionControl

/-- A result left its range. -/
inductive Overflow where
  /-- A sum of counts does not fit in its word. -/
  | count
  /-- A deadline lies beyond every reading of the clock. -/
  | deadline
  /-- A product is longer than every span. -/
  | span
  /-- A wait goes on for more rounds than the clock has readings. This is the mark of a wait
      that never ends, and nobody is told of it. -/
  | endless
  deriving DecidableEq, Repr

/-- The wording of an overflow. -/
def Overflow.message : Overflow → String
  | .count => "attempt to add with overflow"
  | .deadline => "overflow when adding duration to instant"
  | .span => "cannot convert float seconds to Duration: value is either too big or NaN"
  | .endless => ""

/-- The result of a computation that an overflow may end. -/
abbrev Checked (α : Type) := Except Overflow α

end ExecutionControl
