import ExecutionControl.Duration
import ExecutionControl.Text.Blank
import ExecutionControl.Text.Numeral

/-! # Settings

    Values that an operator may set by name. A value with blanks around it is accepted;
    one that does not read as a number of the wanted size is ignored, and the default
    stands.
-/

namespace ExecutionControl

/-- The values that are set, by name. -/
abbrev Settings := String → Option String

namespace Settings

/-- A natural number at most `limit`. -/
def nat (s : Settings) (limit : Nat) (name : String) (default : Nat) : Nat :=
  match s name with
  | none => default
  | some raw =>
    match Text.readNat limit (Text.trim raw) with
    | .ok n => n
    | .error _ => default

/-- A span of whole seconds. -/
def secs (s : Settings) (name : String) (default : Duration) : Duration :=
  let n := s.nat Text.maxWord64 name default.secs
  if h : n < Nat.pow 2 64 then .ofSecs n h else default

/-- A span of whole milliseconds. -/
def millis (s : Settings) (name : String) (default : Duration) : Duration :=
  let n := s.nat Text.maxWord64 name (default.nanos / 1000000)
  if h : n < Nat.pow 2 64 then .ofMillis n h else default

end Settings

end ExecutionControl
