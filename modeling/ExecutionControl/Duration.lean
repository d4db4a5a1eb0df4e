import ExecutionControl.Decimal.Parts
import ExecutionControl.Overflow

/-! # Durations

    Spans of time as whole nanoseconds, below 2^64 seconds. Time to live, waits,
    polling intervals and retry delays are durations; a reading of the monotonic
    clock is a plain number of nanoseconds (`Moment`).
-/

namespace ExecutionControl

/-- A reading of the monotonic clock, in nanoseconds. -/
abbrev Moment := Nat

/-- A span of time. -/
structure Duration where
  /-- The whole span in nanoseconds. -/
  nanos : Nat
  /-- The whole seconds of a span fit in 64 bits. -/
  nanos_lt : nanos < Nat.pow 2 64 * 1000000000
  deriving DecidableEq

namespace Duration

@[ext] theorem ext {a b : Duration} (h : a.nanos = b.nanos) : a = b := by
  cases a; cases b; simp_all

/-! ### Building durations -/

/-- The span of `n` nanoseconds, if it is not too long. -/
def ofNanos? (n : Nat) : Option Duration :=
  if h : n < Nat.pow 2 64 * 1000000000 then some ⟨n, h⟩ else none

/-- The span of `s` seconds. -/
def ofSecs (s : Nat) (h : s < Nat.pow 2 64) : Duration :=
  ⟨s * 1000000000, by omega⟩

/-- The span of `ms` milliseconds. -/
def ofMillis (ms : Nat) (h : ms < Nat.pow 2 64) : Duration :=
  ⟨ms * 1000000, by omega⟩

/-- The span of a given number of seconds. -/
def seconds (s : UInt64) : Duration := ofSecs s.toNat s.toNat_lt

/-- The span of a given number of milliseconds. -/
def milliseconds (ms : UInt64) : Duration := ofMillis ms.toNat ms.toNat_lt

/-- No time at all. -/
def zero : Duration := ⟨0, by decide⟩

instance : Inhabited Duration := ⟨zero⟩

/-- The longest span, one nanosecond below 2^64 seconds. -/
def longest : Duration := ⟨Nat.pow 2 64 * 1000000000 - 1, by decide⟩

theorem ofNanos?_eq_some_iff {n : Nat} {d : Duration} : ofNanos? n = some d ↔ d.nanos = n := by
  unfold ofNanos?
  split
  · constructor
    · intro h; cases h; rfl
    · intro h; simp only [Option.some.injEq]; exact Duration.ext h.symm
  · rename_i hn
    constructor
    · intro h; cases h
    · intro h; exact absurd (h ▸ d.nanos_lt) hn

/-! ### Parts -/

/-- The whole seconds of a span. -/
def secs (d : Duration) : Nat := d.nanos / 1000000000

/-- The nanoseconds of a span past its whole seconds. -/
def subsecNanos (d : Duration) : Nat := d.nanos % 1000000000

/-- The span in seconds, rounded once for the whole seconds, once for the fraction
    and once for their sum. -/
def toSeconds (d : Duration) : Float :=
  Float.ofNat d.secs + Float.ofNat d.subsecNanos / 1000000000.0

/-! ### Order and arithmetic -/

instance : LE Duration := ⟨fun a b => a.nanos ≤ b.nanos⟩

instance (a b : Duration) : Decidable (a ≤ b) := inferInstanceAs (Decidable (a.nanos ≤ b.nanos))

theorem le_def {a b : Duration} : a ≤ b ↔ a.nanos ≤ b.nanos := Iff.rfl

/-- The shorter of two spans. -/
def shorter (a b : Duration) : Duration := if a ≤ b then a else b

@[simp] theorem nanos_shorter (a b : Duration) : (a.shorter b).nanos = min a.nanos b.nanos := by
  unfold shorter
  split <;> rename_i h <;> rw [le_def] at h <;> omega

/-- What is left of a span when another is taken away from it. -/
def minus (a b : Duration) : Duration :=
  ⟨a.nanos - b.nanos, Nat.lt_of_le_of_lt (Nat.sub_le _ _) a.nanos_lt⟩

@[simp] theorem nanos_minus (a b : Duration) : (a.minus b).nanos = a.nanos - b.nanos := rfl

/-- The span taken `k` times, if it is not too long. -/
def times? (d : Duration) (k : Nat) : Option Duration := ofNanos? (d.nanos * k)

/-- The span of a floating-point number of seconds, rounded to the nearest nanosecond, a tie
    to the even one. A number below zero, one that is too large and what is not a number are
    no span. -/
def ofSeconds? (x : Float) : Option Duration :=
  match Decimal.Parts.ofFloat x with
  | .finite negative mantissa exponent =>
    if negative = true ∧ mantissa ≠ 0 then none
    else ofNanos? (Decimal.roundDiv (mantissa * 1000000000 * Nat.pow 2 exponent.toNat)
      (Nat.pow 2 (-exponent).toNat))
  | .infinite _ => none
  | .nan => none

/-- The span times a floating-point factor. The seconds of the span, their product with the
    factor and its nanoseconds are rounded one after another. -/
def scaled (d : Duration) (factor : Float) : Checked Duration :=
  match ofSeconds? (factor * d.toSeconds) with
  | some product => .ok product
  | none => .error .span

/-! ### Text -/

/-- The digits of `fraction`, a number below `10 ^ places`, without the zeros at the end. -/
def fractionDigits (places fraction : Nat) : String :=
  let digits := (toString (Nat.pow 10 places + fraction)).toList.drop 1
  String.ofList (digits.reverse.dropWhile (· == '0')).reverse

/-- A number of units with its decimal fraction, if it has one. -/
def decimalText (whole places fraction : Nat) (unit : String) : String :=
  if fraction = 0 then toString whole ++ unit
  else toString whole ++ "." ++ fractionDigits places fraction ++ unit

/-- The span in the largest of the units s, ms, µs and ns of which it holds at least
    one, with as many decimals as it takes: `5s`, `1.5s`, `200ms`. -/
def text (d : Duration) : String :=
  if d.nanos ≥ 1000000000 then decimalText d.secs 9 d.subsecNanos "s"
  else if d.nanos ≥ 1000000 then decimalText (d.nanos / 1000000) 6 (d.nanos % 1000000) "ms"
  else if d.nanos ≥ 1000 then decimalText (d.nanos / 1000) 3 (d.nanos % 1000) "µs"
  else decimalText d.nanos 0 0 "ns"

end Duration

/-! ### Deadlines -/

/-- The clock never reads 2^63 seconds or more. -/
def Moment.bound : Nat := Nat.pow 2 63 * 1000000000

/-- The reading of the clock once a span has passed. -/
def Moment.after (now : Moment) (span : Duration) : Checked Moment :=
  if now + span.nanos < bound then .ok (now + span.nanos) else .error .deadline

/-- The reading of the clock once a span has passed, if there is one. -/
def Moment.afterAny (now : Moment) : Option Duration → Checked (Option Moment)
  | none => .ok none
  | some span => (now.after span).map some

end ExecutionControl
