import ExecutionControl.Durable.FileTable
import ExecutionControl.Durable.LimitTable

/-! # Calls to the durable stores

    The operations of the two durable tables as data. The tables read the clock and
    draw identities themselves, so that a call carries neither.
-/

namespace ExecutionControl

/-- One call to the table of custom limits. -/
inductive LimitCall where
  | get (orgId : String)
  | upsert (orgId : String) (limit : Nat)
  | delete (orgId : String)
  | list

/-- What a call gives back when it succeeds. -/
abbrev LimitCall.Result : LimitCall → Type
  | .get _ => Option OrgLimit
  | .upsert .. => OrgLimit
  | .delete _ => Bool
  | .list => List OrgLimit

/-- One call to the table of file records. -/
inductive FileCall where
  | createOrGet (file : NewFile)
  | get (id : String)
  | list (executionId : String)
  | transition (id : String) (target : ExecutionStatus) (error : Option String)
      (executionTime : Option Float)
  | countByStatus (executionId : String)

/-- What a call gives back when it succeeds. -/
abbrev FileCall.Result : FileCall → Type
  | .createOrGet _ => FileRecord × Bool
  | .get _ => Option FileRecord
  | .list _ => List FileRecord
  | .transition .. => FileRecord × Bool
  | .countByStatus _ => StatusCounts

/-- Perform a call on the table of custom limits at a time. -/
def LimitTable.perform (t : LimitTable) (now : Timestamp) :
    (call : LimitCall) → Except StoreError call.Result × LimitTable
  | .get orgId => (.ok (t.get orgId), t)
  | .upsert orgId limit => t.upsert orgId limit now
  | .delete orgId => (.ok (t.delete orgId).1, (t.delete orgId).2)
  | .list => (.ok t.list, t)

/-- Perform a call on the table of file records at a time; a new record gets the
    identity `id`. -/
def FileTable.perform (t : FileTable) (id : String) (now : Timestamp) :
    (call : FileCall) → Except StoreError call.Result × FileTable
  | .createOrGet file => t.createOrGet file id now
  | .get id => (.ok (t.get id), t)
  | .list executionId => (.ok (t.list executionId), t)
  | .transition id target error executionTime => t.transition id target error executionTime now
  | .countByStatus executionId => (.ok (t.countByStatus executionId), t)

end ExecutionControl
