import ExecutionControl.Decimal.Parts
import ExecutionControl.Text.Column

/-! # Numbers with a fixed number of decimal places

    The exact value of a floating-point number, rounded to one decimal place with
    ties to the even digit. This is how percentages stand in tables.
-/

namespace ExecutionControl.Decimal

open Text

/-- `mantissa * 2 ^ exponent` in units of `1 / unit`, rounded with ties to even. -/
def scaled (mantissa : Nat) (exponent : Int) (unit : Nat) : Nat :=
  roundDiv (mantissa * unit * Nat.pow 2 exponent.toNat) (Nat.pow 2 (-exponent).toNat)

/-- A number with one decimal place. A negative number keeps its sign when it is
    rounded to zero. -/
def oneDecimal (x : Float) : String :=
  match Parts.ofFloat x with
  | .nan => "NaN"
  | .infinite negative => if negative then "-inf" else "inf"
  | .finite negative mantissa exponent =>
    let tenths := scaled mantissa exponent 10
    (if negative then "-" else "") ++ toString (tenths / 10) ++ "." ++ toString (tenths % 10)

end ExecutionControl.Decimal
