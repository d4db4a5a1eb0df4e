import ExecutionControl.Duration

/-! # Timestamps

    Points of the wall clock in UTC, to the nanosecond. A leap second is the last
    second of its minute with a nanosecond part of 10^9 or more.
-/

namespace ExecutionControl

/-- A point in time. -/
structure Timestamp where
  /-- Whole seconds since 1970-01-01T00:00:00Z. -/
  secs : Int
  /-- Nanoseconds past the whole second; from 10^9 on inside a leap second. -/
  nanos : Nat
  /-- A leap second ends after 2 * 10^9 nanoseconds. -/
  nanos_lt : nanos < 2000000000
  deriving DecidableEq

namespace Timestamp

/-- The point `ms` milliseconds after the epoch, or before it if negative. -/
def ofMillis (ms : Int) : Timestamp :=
  ⟨ms / 1000, (ms % 1000).toNat * 1000000, by omega⟩

instance : Inhabited Timestamp := ⟨ofMillis 0⟩

/-- The whole milliseconds since the epoch, rounded down. -/
def toMillis (t : Timestamp) : Int := t.secs * 1000 + t.nanos / 1000000

@[simp] theorem toMillis_ofMillis (ms : Int) : (ofMillis ms).toMillis = ms := by
  simp only [ofMillis, toMillis]
  omega

/-- The score of a slot taken at this time: the whole milliseconds since the epoch,
    in seconds, rounded to the nearest floating-point number. -/
def score (t : Timestamp) : Float := Float.ofInt t.toMillis / 1000.0

/-- The point `n` nanoseconds later, for a point outside leap seconds. -/
def addNanos (t : Timestamp) (n : Nat) : Timestamp :=
  ⟨t.secs + ((t.nanos + n) / 1000000000 : Nat), (t.nanos + n) % 1000000000, by omega⟩

/-! ### Order -/

/-- Whether one point is not after another. -/
def notAfter (a b : Timestamp) : Bool :=
  a.secs < b.secs || (a.secs == b.secs && a.nanos ≤ b.nanos)

instance : LE Timestamp := ⟨fun a b => a.notAfter b = true⟩

instance (a b : Timestamp) : Decidable (a ≤ b) := inferInstanceAs (Decidable (_ = true))

end Timestamp

end ExecutionControl
