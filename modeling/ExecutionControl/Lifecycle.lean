import ExecutionControl.Tracking.Tracker

/-! # The life of an execution

    One execution from admission to its end: its slot is taken on the way in, its files
    are registered, moved and counted while it runs, and its slot is given back on the
    way out.

    The durable file records count. What goes wrong with tracking or with the slot is
    reported and never fails the caller, since the files have been worked on already.
-/

namespace ExecutionControl

/-- How a worker finished with a file. -/
inductive FileOutcome where
  | completed (executionTime : Float)
  | failed (error : String) (executionTime : Option Float)
  | stopped

namespace FileOutcome

/-- The status of a file after an outcome. -/
def status : FileOutcome → ExecutionStatus
  | .completed _ => .completed
  | .failed .. => .error
  | .stopped => .stopped

/-- The error text that an outcome gives. -/
def error : FileOutcome → Option String
  | .failed e _ => some e
  | _ => none

/-- The execution time that an outcome gives. -/
def executionTime : FileOutcome → Option Float
  | .completed t => some t
  | .failed _ t => t
  | .stopped => none

end FileOutcome

/-- How an execution ends. -/
inductive TerminalStatus where
  | completed
  | stopped
  | error
  deriving DecidableEq, Repr

/-- The status of an execution that ends this way. -/
def TerminalStatus.status : TerminalStatus → ExecutionStatus
  | .completed => .completed
  | .stopped => .stopped
  | .error => .error

/-- Admission and tracking together. -/
structure Lifecycle where
  admission : Admission
  tracker : Tracker

namespace Lifecycle

/-- Start an execution: admit it, and track it if it may run. -/
def start (l : Lifecycle) (c : ExecutionContext) (totalFiles : Nat) :
    Program (Except AdmissionError Decision) := do
  match ← l.admission.tryAdmit c with
  | .error e => return .error e
  | .ok decision => do
    if decision.isAdmitted then
      match ← l.tracker.create c.workflowId c.executionId totalFiles with
      | .ok () => pure ()
      | .error e => Program.report (.trackingNotStarted c.orgId c.executionId e)
    return .ok decision

/-- Register a file; a file that is registered already keeps its record. -/
def registerFile (file : NewFile) : Program (Except StoreError FileRecord) :=
  (fun r => r.map Prod.fst) <$> Program.files (.createOrGet file)

/-- Move a file forward without finishing it. -/
def advanceFile (id : String) (target : ExecutionStatus) :
    Program (Except StoreError FileRecord) :=
  (fun r => r.map Prod.fst) <$> Program.files (.transition id target none none)

/-- Count a file that has just reached a status; none for a status without a counter. -/
def countFile (l : Lifecycle) (c : ExecutionContext) :
    ExecutionStatus → Program (Except TrackerError Unit)
  | .completed =>
    (fun r => r.map fun _ => ()) <$> l.tracker.incrementCompleted c.workflowId c.executionId
  | .error =>
    (fun r => r.map fun _ => ()) <$> l.tracker.incrementFailed c.workflowId c.executionId
  | _ => return .ok ()

/-- Finish a file. It is counted only if its record moved, so that a repeated message is
    not counted twice. -/
def recordFile (l : Lifecycle) (c : ExecutionContext) (id : String) (outcome : FileOutcome) :
    Program (Except StoreError FileRecord) := do
  match ← Program.files
      (.transition id outcome.status outcome.error outcome.executionTime) with
  | .error e => return .error e
  | .ok (record, moved) => do
    if moved then
      match ← l.countFile c outcome.status with
      | .ok () => pure ()
      | .error e => Program.report (.counterNotUpdated id e)
    return .ok record

/-- How many files are in a status that is not terminal. -/
def unfinished (counts : StatusCounts) : Nat :=
  ((ExecutionStatus.all.filter fun s => !s.isTerminal).map counts).foldr (· + ·) 0

/-- Report where the live counters differ from the durable records. Nothing is changed. -/
def reconcile (c : ExecutionContext) : Program Unit := do
  match ← Program.files (.countByStatus c.executionId) with
  | .error _ => pure ()
  | .ok counts =>
    match ← Tracker.get c.workflowId c.executionId with
    | .found live => do
      if counts .completed ≠ live.completedFiles ∨ counts .error ≠ live.failedFiles then
        Program.report (.countersDrifted (counts .completed) (counts .error)
          live.completedFiles live.failedFiles)
      if 0 < unfinished counts then
        Program.report (.filesStillInFlight (unfinished counts))
    | _ => pure ()

/-- End an execution: record its last status and give its slot back. Says whether it
    held one. -/
def finish (l : Lifecycle) (c : ExecutionContext) (how : TerminalStatus) : Program Bool := do
  match ← l.tracker.updateStatus c.workflowId c.executionId (.canonical how.status) with
  | .ok _ => pure ()
  | .error e => Program.report (.finalStatusNotTracked e)
  reconcile c
  Admission.release c.orgId c.executionId

end Lifecycle

end ExecutionControl
