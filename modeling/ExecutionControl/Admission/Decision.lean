import ExecutionControl.Duration
import ExecutionControl.Json.Writer

/-! # Decisions of admission

    What admission answers: an execution may run, or which ceiling stands in its way.
    The numbers of the whole system are never shown to clients.
-/

namespace ExecutionControl

/-- Which ceiling an execution ran into. -/
inductive RejectionReason where
  | orgLimitExceeded
  | globalLimitExceeded
  deriving DecidableEq, Repr

/-- The code of a reason. -/
def RejectionReason.code : RejectionReason → String
  | .orgLimitExceeded => "ORG_LIMIT_EXCEEDED"
  | .globalLimitExceeded => "GLOBAL_LIMIT_EXCEEDED"

/-- Why an execution may not run. -/
structure Rejection where
  reason : RejectionReason
  /-- How many executions run. -/
  currentUsage : Nat
  /-- How many may run. -/
  limit : Nat
  deriving DecidableEq, Repr

namespace Rejection

/-- Usage against the ceiling. -/
def ratio (r : Rejection) : String := toString r.currentUsage ++ "/" ++ toString r.limit

/-- Usage as it may be shown to clients: that of their own organisation only. -/
def usageDisplay (r : Rejection) : Option String :=
  match r.reason with
  | .orgLimitExceeded => some r.ratio
  | .globalLimitExceeded => none

/-- The message to clients. -/
def clientMessage (r : Rejection) : String :=
  match r.reason with
  | .orgLimitExceeded =>
    "Organization has reached the maximum concurrent requests limit (" ++ r.ratio ++
      "). Please try again later."
  | .globalLimitExceeded => "System is at capacity. Please try again later."

/-- A rejection as a JSON object. -/
def toJson (r : Rejection) : Json :=
  .obj [("reason", .str r.reason.code), ("current_usage", Json.nat r.currentUsage),
    ("limit", Json.nat r.limit)]

end Rejection

/-- What admission decides. -/
inductive Decision where
  /-- The execution may run; `degraded` if the ceilings could not be checked. -/
  | admitted (degraded : Bool)
  | rejected (r : Rejection)
  deriving DecidableEq, Repr

/-- Whether the execution may run. -/
def Decision.isAdmitted : Decision → Bool
  | .admitted _ => true
  | .rejected _ => false

/-- Why admission could not decide. -/
inductive AdmissionError where
  /-- Others held the lock of the organisation for the whole wait. -/
  | lockNotAcquired (orgId : String) (waited : Duration)
  deriving DecidableEq

/-- The wording of the error. -/
def AdmissionError.message : AdmissionError → String
  | .lockNotAcquired orgId waited =>
    "could not acquire admission lock for org " ++ orgId ++ " within " ++ waited.text

/-- Occupancy and ceilings of an organisation and of the whole system. -/
structure Usage where
  orgId : String
  orgCount : Nat
  orgLimit : Nat
  globalCount : Nat
  globalLimit : Nat
  deriving DecidableEq, Repr

/-- What a sweep found. -/
structure SweepReport where
  /-- The organisations with slots. -/
  orgSets : Nat := 0
  /-- The slots that were reclaimed. -/
  reclaimed : Nat := 0
  deriving DecidableEq, Repr

end ExecutionControl
