import ExecutionControl.Admission.Control
import ExecutionControl.Tracking.Config
import ExecutionControl.Tracking.Record

/-! # Tracking

    Live status and counters of an execution, kept as a hash in the coordination store
    so that any worker can change them. Every change sets the time to live anew, so
    that a record nobody touches goes away.
-/

namespace ExecutionControl

/-- A status as it arrives from outside. -/
inductive StatusValue where
  /-- A status. -/
  | canonical (status : ExecutionStatus)
  /-- A text that should name one. -/
  | text (raw : String)
  deriving DecidableEq, Repr

/-- The status that a value stands for. -/
def StatusValue.resolve : StatusValue → Except InvalidStatusValue ExecutionStatus
  | .canonical status => .ok status
  | .text raw => ExecutionStatus.parse raw

/-- What is known of an execution. -/
inductive StatusLookup where
  | found (record : StatusRecord)
  /-- There is no record: it was never made, or it is gone. -/
  | missing
  /-- The store could not answer, which does not mean that there is no record. -/
  | unknown

/-- Tracking with its times to live. -/
structure Tracker where
  config : TrackerConfig

namespace Tracker

open StatusRecord

/-- Run a part of a program, with its failure as a failure to track. -/
def tracked {α : Type} (x : Coord α) : Program (Except TrackerError α) :=
  (fun r => r.mapError .coordination) <$> x.run

/-- Start tracking an execution. What is already recorded of it is kept, except for
    the number of files and the time of change. -/
def create (t : Tracker) (workflowId executionId : String) (totalFiles : Nat) :
    Program (Except TrackerError Unit) := tracked do
  let key := Key.execution workflowId executionId
  let now := (← (Program.time : Program Timestamp)).offsetText
  let _ ← Coord.call (.setNewField key statusField ExecutionStatus.pending.name)
  let _ ← Coord.call (.setNewField key completedField "0")
  let _ ← Coord.call (.setNewField key failedField "0")
  let _ ← Coord.call (.setNewField key createdField now)
  Coord.call (.setFields key [(totalField, toString totalFiles), (updatedField, now)])
  let _ ← Coord.call (.expire key t.config.activeTtl)

/-- Record a status. -/
def writeStatus (t : Tracker) (workflowId executionId : String) (status : ExecutionStatus) :
    Coord Unit := do
  let key := Key.execution workflowId executionId
  let now := (← (Program.time : Program Timestamp)).offsetText
  Coord.call (.setFields key [(statusField, status.name), (updatedField, now)])
  let _ ← Coord.call (.expire key (t.config.ttl status))

/-- Record a status in any form that names one; anything else fails before the store is
    touched. -/
def updateStatus (t : Tracker) (workflowId executionId : String) (value : StatusValue) :
    Program (Except TrackerError ExecutionStatus) :=
  match value.resolve with
  | .error e => return .error (.invalidStatus e)
  | .ok status => tracked do
    t.writeStatus workflowId executionId status
    return status

/-- The time to live that some fields ask for. -/
def ttlFor (t : Tracker) (fields : Fields) : Duration :=
  match fields[statusField]?.map ExecutionStatus.parse with
  | some (.ok status) => t.config.ttl status
  | _ => t.config.activeTtl

/-- Add one to a counter. A record that is not there is started, so that it can be
    read; one that is terminal keeps its short time to live. -/
def increment (t : Tracker) (workflowId executionId field : String) :
    Program (Except TrackerError Nat) := tracked do
  let key := Key.execution workflowId executionId
  let now := (← (Program.time : Program Timestamp)).offsetText
  -- A counter alone would make a record that cannot be read, so that its status comes first.
  let seeded ← Coord.call (.setNewField key statusField ExecutionStatus.pending.name)
  if seeded then
    let _ ← Coord.call (.setNewField key createdField now)
  let value ← Coord.call (.increment key field 1)
  Coord.call (.setFields key [(updatedField, now)])
  let fields ← Coord.call (.getFields key)
  let _ ← Coord.call (.expire key (t.ttlFor fields))
  return value.toNat

/-- Count a file that was completed. -/
def incrementCompleted (t : Tracker) (workflowId executionId : String) :
    Program (Except TrackerError Nat) := t.increment workflowId executionId completedField

/-- Count a file that failed. -/
def incrementFailed (t : Tracker) (workflowId executionId : String) :
    Program (Except TrackerError Nat) := t.increment workflowId executionId failedField

/-- Look an execution up. -/
def get (workflowId executionId : String) : Program StatusLookup := do
  match ← Program.coord (.getFields (Key.execution workflowId executionId)) with
  | .error e => do
    Program.report (.statusUnavailable workflowId executionId e)
    return .unknown
  | .ok fields =>
    if fields.isEmpty then return .missing
    else do
      match ofFields workflowId executionId fields (← Program.time) with
      | .ok record => return .found record
      | .error e => do
        Program.report (.statusUnreadable workflowId executionId e)
        return .unknown

/-- Forget an execution; says whether there was a record. -/
def delete (workflowId executionId : String) : Program (Except TrackerError Bool) :=
  tracked (Coord.call (.delete (Key.execution workflowId executionId)))

end Tracker

end ExecutionControl
