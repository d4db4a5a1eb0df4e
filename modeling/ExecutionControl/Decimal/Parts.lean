/-! # The parts of a floating-point number

    A floating-point number of 64 bits as what it stands for: a sign, a whole
    mantissa and a power of two, or infinity, or no number.
-/

namespace ExecutionControl.Decimal

/-- What a floating-point number stands for. -/
inductive Parts where
  /-- No number. -/
  | nan
  /-- Infinity of either sign. -/
  | infinite (negative : Bool)
  /-- The number `mantissa * 2 ^ exponent`, negated if `negative`. -/
  | finite (negative : Bool) (mantissa : Nat) (exponent : Int)
  deriving DecidableEq, Repr

/-- The parts of a number. Below 2^-1022 the mantissa has no leading one. -/
def Parts.ofFloat (x : Float) : Parts :=
  let bits : Nat := x.toBits.toNat
  let negative := decide (bits ≥ Nat.pow 2 63)
  let field : Nat := bits / Nat.pow 2 52 % Nat.pow 2 11
  let fraction : Nat := bits % Nat.pow 2 52
  if field = Nat.pow 2 11 - 1 then (if fraction = 0 then .infinite negative else .nan)
  else if field = 0 then .finite negative fraction (-1074)
  else .finite negative (Nat.pow 2 52 + fraction) ((field : Int) - 1075)

/-- Whether a number is neither infinite nor no number. -/
def Parts.isFinite : Parts → Bool
  | .finite .. => true
  | _ => false

/-- The quotient of natural numbers rounded to the nearest whole number, a tie to
    the even one. -/
def roundDiv (num den : Nat) : Nat :=
  let q := num / den
  let twice := 2 * (num % den)
  if twice < den ∨ (twice = den ∧ q % 2 = 0) then q else q + 1

end ExecutionControl.Decimal
