import ExecutionControl.Decimal.Parts

/-! # Shortest decimals

    The shortest decimal that reads back as a given floating-point number: of all
    decimals in the interval of reals that round to the number, one with the fewest
    digits, and of those the nearest. The search tests, for one digit, two digits and
    so on, the two neighbours of the exact value on that decimal grid.
-/

namespace ExecutionControl.Decimal

/-- The interval of reals that round to `mantissa * 2 ^ exponent`, and that value,
    over one denominator. -/
structure Interval where
  /-- The lower end times the denominator. -/
  low : Nat
  /-- The value itself times the denominator. -/
  mid : Nat
  /-- The upper end times the denominator. -/
  high : Nat
  /-- The common denominator. -/
  den : Nat
  /-- Whether the two ends belong to the interval. -/
  closed : Bool

/-- The interval of a positive number. It reaches half way to either neighbour; the
    neighbour below a power of two is only half as far away. -/
def Interval.ofParts (mantissa : Nat) (exponent : Int) : Interval :=
  let up := Nat.pow 2 (exponent - 2).toNat
  let near := if mantissa = Nat.pow 2 52 ∧ exponent > -1074 then 1 else 2
  ⟨(4 * mantissa - near) * up, 4 * mantissa * up, (4 * mantissa + 2) * up,
    Nat.pow 2 (2 - exponent).toNat, mantissa % 2 == 0⟩

/-- Whether `digits * 10 ^ exponent` lies in the interval. -/
def Interval.holds (i : Interval) (digits : Nat) (exponent : Int) : Bool :=
  let c := digits * i.den * Nat.pow 10 exponent.toNat
  let low := i.low * Nat.pow 10 (-exponent).toNat
  let high := i.high * Nat.pow 10 (-exponent).toNat
  if i.closed then low ≤ c && c ≤ high else low < c && c < high

/-- The number of digits before the decimal point of a value, or minus the number of
    zeros after it: the least `k` with value below `10 ^ k`. The search for a value
    below one takes at most `fuel` steps. -/
def magnitude (num den : Nat) : Nat → Int
  | 0 => 0
  | fuel + 1 =>
    if num ≥ den then ((toString (num / den)).length : Int) else magnitude (num * 10) den fuel - 1

/-- The neighbour of the value on the grid `10 ^ exponent` that lies in the interval:
    the one below, the one above, or of both the nearer, a tie going to the even one. -/
def Interval.pick? (i : Interval) (exponent : Int) : Option Nat :=
  let num := i.mid * Nat.pow 10 (-exponent).toNat
  let den := i.den * Nat.pow 10 exponent.toNat
  let below := num / den
  match i.holds below exponent, i.holds (below + 1) exponent with
  | true, true => some (roundDiv num den)
  | true, false => some below
  | false, true => some (below + 1)
  | false, false => none

/-- The first hit on grids of `n` and more digits, for a value below `10 ^ k`. -/
def Interval.search (i : Interval) (k : Int) : Nat → Nat → Nat × Int
  | _, 0 => (0, 0)
  | n, fuel + 1 =>
    match i.pick? (k - n) with
    | some digits => (digits, k - n)
    | none => i.search k (n + 1) fuel

/-- The digits without the zeros at the end, with the exponent raised to match. -/
def stripZeros (digits : Nat) (exponent : Int) : Nat → Nat × Int
  | 0 => (digits, exponent)
  | fuel + 1 =>
    if digits ≠ 0 ∧ digits % 10 = 0 then stripZeros (digits / 10) (exponent + 1) fuel
    else (digits, exponent)

/-- Digits and exponent of the shortest decimal of a positive number. Seventeen digits
    are always enough. -/
def shortest (mantissa : Nat) (exponent : Int) : Nat × Int :=
  let i := Interval.ofParts mantissa exponent
  let (digits, e) := i.search (magnitude i.mid i.den 330) 1 17
  stripZeros digits e 20

end ExecutionControl.Decimal
