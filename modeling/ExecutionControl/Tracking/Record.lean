import ExecutionControl.Execution.Status
import ExecutionControl.Key
import ExecutionControl.Overflow
import ExecutionControl.Timestamp.Text

/-! # Status records

    The live status of an execution with counters of its files. In the coordination
    store a record is a hash of texts; here is how a hash is read.
-/

namespace ExecutionControl

/-- The live status of an execution. -/
structure StatusRecord where
  workflowId : String
  executionId : String
  status : ExecutionStatus
  completedFiles : Nat
  failedFiles : Nat
  /-- How many files there are, zero while that is not known. -/
  totalFiles : Nat
  createdAt : Timestamp
  updatedAt : Timestamp
  deriving DecidableEq

namespace StatusRecord

/-! ### Progress -/

/-- How many files are done with, one way or the other. -/
def processedFiles (r : StatusRecord) : Checked Nat :=
  if r.completedFiles + r.failedFiles ≤ Text.maxWord64 then .ok (r.completedFiles + r.failedFiles)
  else .error .count

/-- The smaller of two numbers. -/
def smaller (x y : Float) : Float := if y < x then y else x

/-- The share of files that are done with, in percent and at most 100; none while the
    number of files is not known. -/
def progress (r : StatusRecord) : Checked (Option Float) :=
  if r.totalFiles = 0 then .ok none
  else r.processedFiles.map fun n =>
    some (smaller (Float.ofNat n / Float.ofNat r.totalFiles * 100.0) 100.0)

/-! ### Reading a hash -/

/-- The names of the fields of a hash. -/
def statusField : String := "status"

/-- The counter of files that were completed. -/
def completedField : String := "completed_files"

/-- The counter of files that failed. -/
def failedField : String := "failed_files"

/-- The number of files. -/
def totalField : String := "total_files"

/-- When the record was made. -/
def createdField : String := "created_at"

/-- When the record was last changed. -/
def updatedField : String := "updated_at"

/-- The value of a counter, zero if it is missing or negative. -/
def readCounter (fields : Fields) (key name : String) : Except CoordError Nat :=
  match fields[name]? with
  | none => .ok 0
  | some raw =>
    match Text.readInt Text.maxInt64 raw with
    | .ok n => .ok n.toNat
    | .error e => .error (.corrupt key (name ++ ": " ++ e.message))

/-- The time in a field, if there is one that can be read. -/
def readTime? (fields : Fields) (name : String) : Option Timestamp :=
  fields[name]?.bind Timestamp.readStrict

/-- The status in a hash. -/
def readStatus (fields : Fields) (key : String) : Except CoordError ExecutionStatus :=
  match fields[statusField]? with
  | none => .error (.corrupt key "missing status")
  | some raw =>
    match ExecutionStatus.parse raw with
    | .ok s => .ok s
    | .error e => .error (.corrupt key e.message)

/-- The record that a hash stands for. A time of change that is missing is `now`, and a
    time of creation that is missing is the time of change. -/
def ofFields (workflowId executionId : String) (fields : Fields) (now : Timestamp) :
    Except CoordError StatusRecord := do
  let key := Key.execution workflowId executionId
  let status ← readStatus fields key
  let completedFiles ← readCounter fields key completedField
  let failedFiles ← readCounter fields key failedField
  let totalFiles ← readCounter fields key totalField
  let updatedAt := (readTime? fields updatedField).getD now
  let createdAt := (readTime? fields createdField).getD updatedAt
  return { workflowId, executionId, status, completedFiles, failedFiles, totalFiles,
           createdAt, updatedAt }

end StatusRecord

end ExecutionControl
