import ExecutionControl.Coordination.Error
import ExecutionControl.Durable.Error

/-! # Events

    What operators are told while the program runs: each event that deserves a warning,
    with what it is about.
-/

namespace ExecutionControl

/-- Why a tracking operation fails. -/
inductive TrackerError where
  /-- The text names no status. -/
  | invalidStatus (e : InvalidStatusValue)
  /-- The coordination store failed. -/
  | coordination (e : CoordError)
  deriving DecidableEq, Repr

/-- The wording of the error. -/
def TrackerError.message : TrackerError → String
  | .invalidStatus e => e.message
  | .coordination e => e.message

/-- How bad an event is. -/
inductive Severity where
  | warning
  | error
  deriving DecidableEq, Repr

/-- Something that operators are told of. -/
inductive Event where
  /-- A cached limit was no number of at least one. -/
  | cachedLimitDiscarded (orgId value : String)
  /-- The limit cache could not be read. -/
  | limitCacheUnreachable (orgId : String) (error : CoordError)
  /-- The durable limit could not be read, and the default was used. -/
  | limitLookupFailed (orgId : String) (error : StoreError) (default : Nat)
  /-- A cached limit could not be removed. -/
  | invalidationFailed (orgId : String) (error : CoordError) (ttl : Duration)
  /-- An execution was rejected because the whole system is full. -/
  | globalLimitReached (count limit : Nat)
  /-- An execution was let in without a check. -/
  | admittedUnchecked (error : CoordError)
  /-- The slots of an execution could not be given back. -/
  | releaseFailed (orgId executionId : String) (error : CoordError)
  /-- A sweep left out the slots of one organisation. -/
  | slotSetSkipped (key : String) (error : CoordError)
  /-- A periodic sweep failed. -/
  | sweepFailed (error : CoordError)
  /-- A status record could not be fetched. -/
  | statusUnavailable (workflowId executionId : String) (error : CoordError)
  /-- A status record could not be made sense of. -/
  | statusUnreadable (workflowId executionId : String) (error : CoordError)
  /-- An admitted execution has no status record. -/
  | trackingNotStarted (orgId executionId : String) (error : TrackerError)
  /-- A finished file was not counted. -/
  | counterNotUpdated (fileId : String) (error : TrackerError)
  /-- The last status of an execution was not recorded. -/
  | finalStatusNotTracked (error : TrackerError)
  /-- The live counters differ from the durable records. -/
  | countersDrifted (durableCompleted durableFailed trackedCompleted trackedFailed : Nat)
  /-- An execution ended while some of its files had not. -/
  | filesStillInFlight (unfinished : Nat)
  /-- A task failed and will be tried again. -/
  | taskRetried (error : String) (attempt : Nat)
  /-- A task failed for the last time. -/
  | taskExhausted (error : String) (attempt : Nat)

namespace Event

/-- How bad an event is: only a task that is given up is an error. -/
def severity : Event → Severity
  | .taskExhausted .. => .error
  | _ => .warning

/-- The wording of an event, without what it is about. -/
def message : Event → String
  | .cachedLimitDiscarded .. => "discarding corrupt cached limit"
  | .limitCacheUnreachable .. => "limit cache unavailable, reading durable config"
  | .limitLookupFailed .. => "durable limit lookup failed, using default"
  | .invalidationFailed .. => "limit cache invalidation failed, stale value lives until TTL"
  | .globalLimitReached .. => "admission rejected: global limit"
  | .admittedUnchecked .. => "coordination store unavailable, admitting without limit check"
  | .releaseFailed .. => "failed to release admission slot, the sweeper will reclaim it"
  | .slotSetSkipped .. => "skipping org set"
  | .sweepFailed .. => "sweep failed, retrying next interval"
  | .statusUnavailable .. => "execution status unavailable"
  | .statusUnreadable .. => "unreadable execution status"
  | .trackingNotStarted .. => "execution tracking not started"
  | .counterNotUpdated .. => "file counter not updated"
  | .finalStatusNotTracked .. => "final status not tracked"
  | .countersDrifted .. => "live file counters drifted from durable records"
  | .filesStillInFlight .. => "execution finished with files still in flight"
  | .taskRetried .. => "task failed, scheduling redelivery"
  | .taskExhausted .. => "task failed, retries exhausted"

/-- What an event is about, by name. -/
def fields : Event → List (String × String)
  | .cachedLimitDiscarded orgId value => [("org_id", orgId), ("value", value)]
  | .limitCacheUnreachable orgId e => [("org_id", orgId), ("error", e.message)]
  | .limitLookupFailed orgId e default =>
    [("org_id", orgId), ("error", e.message), ("default", toString default)]
  | .invalidationFailed orgId e ttl =>
    [("org_id", orgId), ("error", e.message), ("ttl_secs", toString ttl.secs)]
  | .globalLimitReached count limit =>
    [("global_count", toString count), ("global_limit", toString limit)]
  | .admittedUnchecked e => [("error", e.message)]
  | .releaseFailed orgId executionId e =>
    [("org_id", orgId), ("execution_id", executionId), ("error", e.message)]
  | .slotSetSkipped key e => [("key", key), ("error", e.message)]
  | .sweepFailed e => [("error", e.message)]
  | .statusUnavailable workflowId executionId e =>
    [("workflow_id", workflowId), ("execution_id", executionId), ("error", e.message)]
  | .statusUnreadable workflowId executionId e =>
    [("workflow_id", workflowId), ("execution_id", executionId), ("error", e.message)]
  | .trackingNotStarted orgId executionId e =>
    [("org_id", orgId), ("execution_id", executionId), ("error", e.message)]
  | .counterNotUpdated fileId e => [("file_execution_id", fileId), ("error", e.message)]
  | .finalStatusNotTracked e => [("error", e.message)]
  | .countersDrifted durableCompleted durableFailed trackedCompleted trackedFailed =>
    [("durable_completed", toString durableCompleted), ("durable_failed", toString durableFailed),
      ("tracked_completed", toString trackedCompleted), ("tracked_failed", toString trackedFailed)]
  | .filesStillInFlight unfinished => [("unfinished", toString unfinished)]
  | .taskRetried e attempt => [("error", e), ("attempt", toString attempt)]
  | .taskExhausted e attempt => [("error", e), ("attempt", toString attempt)]

end Event

end ExecutionControl
