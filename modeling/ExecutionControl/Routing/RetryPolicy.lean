import ExecutionControl.Json.Record
import ExecutionControl.Json.Writer

/-! # Retry policies

    How often a task that failed is tried again, and how long to wait before. The wait
    doubles with every attempt up to a maximum; with jitter it is a random part of that, so
    that the retries of tasks that failed together spread out.
-/

namespace ExecutionControl

/-- How a task that failed is tried again. -/
structure RetryPolicy where
  /-- How often it is tried again after the first attempt. -/
  maxRetries : Nat
  /-- The wait before the first retry. -/
  backoffBase : Duration
  /-- The longest wait. -/
  backoffMax : Duration
  /-- Whether only a random part of the wait is waited. -/
  jitter : Bool
  deriving DecidableEq

/-- What chance gives: a number from zero to one. -/
structure Draw where
  factor : Float
  nonneg : 0.0 ≤ factor
  le_one : factor ≤ 1.0

/-- Chance gives one. -/
def Draw.one : Draw := ⟨1.0, by decide, by decide⟩

namespace RetryPolicy

/-- Whether a task is tried again after its attempt of this number failed; the first
    attempt has number one. -/
def shouldRetry (p : RetryPolicy) (attempt : Nat) : Bool := attempt ≤ p.maxRetries

/-- How often the wait after an attempt has doubled. It doubles at most 31 times. -/
def doublings (attempt : Nat) : Nat := min (attempt - 1) 31

/-- The longest wait after an attempt failed. -/
def delayFor (p : RetryPolicy) (attempt : Nat) : Duration :=
  ((p.backoffBase.times? (Nat.pow 2 (doublings attempt))).getD p.backoffMax).shorter p.backoffMax

/-- The wait after an attempt failed; `draw` is what chance gives. A product that rounding
    has brought above the longest wait is cut off there. -/
def jitteredDelay (p : RetryPolicy) (attempt : Nat) (draw : Draw) : Checked Duration :=
  let cap := p.delayFor attempt
  if p.jitter = true ∧ cap ≠ .zero then (cap.scaled draw.factor).map (·.shorter cap) else .ok cap

/-- Whether the wait after an attempt is left to chance. -/
def isRandomAfter (p : RetryPolicy) (attempt : Nat) : Bool :=
  p.jitter && p.delayFor attempt != .zero

/-! ### JSON -/

/-- The fields of a policy that have been read. -/
structure Draft where
  maxRetries : Option Nat := none
  backoffBase : Option Duration := none
  backoffMax : Option Duration := none
  jitter : Option Bool := none

/-- The fields of a policy in order, within `depth` further levels of nesting. -/
def fields (depth : Nat) : List (Json.Field Draft) :=
  [{ name := "max_retries", given := (·.maxRetries.isSome),
     read := fun d => (fun n => { d with maxRetries := some n }) <$>
       Json.readNatUpTo Text.maxWord32 },
   { name := "backoff_base", given := (·.backoffBase.isSome),
     read := fun d => (fun x => { d with backoffBase := some x }) <$> Json.readDuration depth },
   { name := "backoff_max", given := (·.backoffMax.isSome),
     read := fun d => (fun x => { d with backoffMax := some x }) <$> Json.readDuration depth },
   { name := "jitter", given := (·.jitter.isSome),
     read := fun d => (fun b => { d with jitter := some b }) <$> Json.readBool }]

/-- The policy of a draft that has every field. -/
def Draft.finish (d : Draft) : Option RetryPolicy := do
  some ⟨← d.maxRetries, ← d.backoffBase, ← d.backoffMax, ← d.jitter⟩

/-- Read a policy from JSON text. -/
def reader (depth : Nat) : Json.Reader RetryPolicy :=
  Json.readRecord (fields (depth - 1)) false {} Draft.finish depth

/-- A span as a JSON object of its whole seconds and the nanoseconds past them. -/
def spanJson (d : Duration) : Json :=
  .obj [("secs", Json.nat d.secs), ("nanos", Json.nat d.subsecNanos)]

/-- A policy as a JSON object. -/
def toJson (p : RetryPolicy) : Json :=
  .obj [("max_retries", Json.nat p.maxRetries), ("backoff_base", spanJson p.backoffBase),
    ("backoff_max", spanJson p.backoffMax), ("jitter", .bool p.jitter)]

end RetryPolicy

end ExecutionControl
