import ExecutionControl.Admission.Control
import ExecutionControl.Sweeping.Metrics

/-! # The sweeper

    Reclaims stale slots from time to time and counts what it does. A sweep that fails
    is reported, and the next one tries again.
-/

namespace ExecutionControl.Admission

/-- Reclaim all stale slots at `now`, and count it. -/
def sweepOnce (a : Admission) (m : Metrics) (now : Timestamp) :
    Program (Except CoordError SweepReport × Metrics) := do
  match ← (a.sweepAllAt now).run with
  | .ok report => return (.ok report, m.started.succeeded report now)
  | .error e => return (.error e, m.started.failed)

/-- Reclaim all stale slots at the time of the wall clock, count it, and report a
    failure. -/
def sweepTick (a : Admission) (m : Metrics) : Program Metrics := do
  match ← a.sweepOnce m (← Program.time) with
  | (.ok _, m) => return m
  | (.error e, m) => do
    Program.report (.sweepFailed e)
    return m

/-- Sweep at once and then after every interval while there is time left. Without an
    interval there is no sweep, and the time passes. -/
def sweepFor (a : Admission) (interval left : Duration) (m : Metrics) : Program Metrics :=
  if left.nanos = 0 then return m
  else if interval.nanos = 0 then do
    Program.sleep left
    return m
  else do
    let m ← a.sweepTick m
    Program.sleep (interval.shorter left)
    a.sweepFor interval (left.minus interval) m
termination_by left.nanos
decreasing_by
  simp only [Duration.nanos_minus]
  omega

end ExecutionControl.Admission
