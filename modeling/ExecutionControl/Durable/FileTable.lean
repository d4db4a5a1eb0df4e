import Std.Data.ExtTreeMap
import ExecutionControl.Durable.Error

/-! # The table of file records

    The durable records of files, with a unique index from what identifies a file to
    the identity of its record. A repeated registration finds the record that the
    first one made.
-/

namespace ExecutionControl

namespace FileKey

/-- The order of file keys in the index. -/
def order : FileKey → FileKey → Ordering :=
  compareLex (compareOn FileKey.executionId)
    (compareLex (compareOn FileKey.fileHash) (compareOn FileKey.filePath))

instance : Std.TransCmp order :=
  inferInstanceAs (Std.TransCmp (compareLex (compareOn FileKey.executionId)
    (compareLex (compareOn FileKey.fileHash) (compareOn FileKey.filePath))))

instance : Std.LawfulEqCmp order where
  eq_of_compare {a b} h := by
    simp only [order, compareLex_eq_eq, compareOn, Std.LawfulEqOrd.compare_eq_iff_eq] at h
    obtain ⟨h₁, h₂, h₃⟩ := h
    cases a
    cases b
    simp_all

end FileKey

/-- The records by identity, and the unique index. -/
structure FileTable where
  /-- The records by their identities. -/
  records : Std.ExtTreeMap String FileRecord := {}
  /-- The identity of the record of each file. -/
  index : Std.ExtTreeMap FileKey String FileKey.order := {}

/-- How many files of an execution are in each status. -/
abbrev StatusCounts := ExecutionStatus → Nat

namespace FileTable

/-- Register a file at `now`. Gives back its record and whether it is new; a new
    record gets the identity `id`. -/
def createOrGet (t : FileTable) (f : NewFile) (id : String) (now : Timestamp) :
    Except StoreError (FileRecord × Bool) × FileTable :=
  match t.index[f.key]? with
  | some existing =>
    match t.records[existing]? with
    | some record => (.ok (record, false), t)
    | none => (.error (.notFound existing), t)
  | none =>
    let record := FileRecord.ofNew id f now
    (.ok (record, true), ⟨t.records.insert id record, t.index.insert f.key id⟩)

/-- The record with an identity. -/
def get (t : FileTable) (id : String) : Option FileRecord := t.records[id]?

/-- Whether one record comes before another in a list, or equals it: the older first,
    and of two of the same age the one with the smaller identity. -/
def inListOrder (a b : FileRecord) : Bool :=
  if a.createdAt = b.createdAt then a.id ≤ b.id else a.createdAt ≤ b.createdAt

/-- The records of an execution, unordered. -/
def ofExecution (t : FileTable) (executionId : String) : List FileRecord :=
  t.records.values.filter fun r => r.executionId == executionId

/-- The records of an execution by age. -/
def list (t : FileTable) (executionId : String) : List FileRecord :=
  (t.ofExecution executionId).mergeSort inListOrder

/-- Move a record at `now`. Gives back the record and whether it moved. -/
def transition (t : FileTable) (id : String) (target : ExecutionStatus)
    (error : Option String) (executionTime : Option Float) (now : Timestamp) :
    Except StoreError (FileRecord × Bool) × FileTable :=
  match t.records[id]? with
  | none => (.error (.notFound id), t)
  | some record =>
    match record.transition target error executionTime now with
    | .error e => (.error (.invalidTransition e), t)
    | .ok (moved, record) =>
      (.ok (record, moved), { t with records := t.records.insert id record })

/-- How many files of an execution are in each status. -/
def countByStatus (t : FileTable) (executionId : String) : StatusCounts := fun status =>
  (t.ofExecution executionId).countP fun r => r.status == status

end FileTable

end ExecutionControl
