import ExecutionControl.Admission.Decision
import ExecutionControl.Timestamp.Basic

/-! # Metrics of sweeping

    Counters that a sweep changes, and the text in which they are served. A counter
    that leaves its 64 bits starts again at zero.
-/

namespace ExecutionControl

/-- What has been counted. -/
structure Metrics where
  /-- The sweeps that were started. -/
  sweeps : UInt64 := 0
  /-- The sweeps that failed. -/
  errors : UInt64 := 0
  /-- The slots that were reclaimed. -/
  reclaimed : UInt64 := 0
  /-- The organisations that the last sweep to succeed found. -/
  orgSets : UInt64 := 0
  /-- When a sweep last succeeded, in seconds since the epoch; zero before the first. -/
  lastSuccess : UInt64 := 0
  deriving DecidableEq, Repr

namespace Metrics

/-! ### Counting -/

/-- A sweep starts. -/
def started (m : Metrics) : Metrics := { m with sweeps := m.sweeps + 1 }

/-- A sweep failed. -/
def failed (m : Metrics) : Metrics := { m with errors := m.errors + 1 }

/-- A sweep at `now` succeeded. -/
def succeeded (m : Metrics) (report : SweepReport) (now : Timestamp) : Metrics :=
  { m with
    reclaimed := m.reclaimed + UInt64.ofNat report.reclaimed
    orgSets := UInt64.ofNat report.orgSets
    lastSuccess := UInt64.ofNat now.secs.toNat }

/-! ### Text -/

/-- One metric: its name, what it means, its kind and its value. -/
def series (name help kind : String) (value : UInt64) : String :=
  let name := "docflow_sweeper_" ++ name
  "# HELP " ++ name ++ " " ++ help ++ "\n# TYPE " ++ name ++ " " ++ kind ++ "\n" ++
    name ++ " " ++ toString value.toNat ++ "\n"

/-- All metrics in the text form that monitoring reads. -/
def text (m : Metrics) : String :=
  series "sweeps_total" "Sweep passes started." "counter" m.sweeps ++
  series "sweep_errors_total" "Sweep passes that failed." "counter" m.errors ++
  series "slots_reclaimed_total" "Stale admission slots removed." "counter" m.reclaimed ++
  series "org_sets" "Org slot sets seen by the last sweep." "gauge" m.orgSets ++
  series "last_success_timestamp_seconds" "Time of the last successful sweep." "gauge"
    m.lastSuccess

/-! ### Serving -/

/-- What is served over HTTP. -/
inductive Page where
  /-- The metrics. -/
  | metrics
  /-- A sign of life. -/
  | health
  deriving DecidableEq, Repr

/-- The status code and the body of a page. -/
def serve (m : Metrics) : Page → Nat × String
  | .metrics => (200, m.text)
  | .health => (200, "ok")

end Metrics

end ExecutionControl
