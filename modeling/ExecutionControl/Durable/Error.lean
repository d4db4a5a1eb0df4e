import ExecutionControl.Execution.FileRecord

/-! # Errors of the durable stores -/

namespace ExecutionControl

/-- Why a durable store refuses or fails a call. -/
inductive StoreError where
  /-- There is no file record with this identity. -/
  | notFound (id : String)
  /-- A file record cannot make this move. -/
  | invalidTransition (e : InvalidTransition)
  /-- A limit that no organisation can have. -/
  | invalidLimit (limit : Nat)
  /-- A stored row cannot be made sense of. -/
  | corrupt (reason : String)
  deriving DecidableEq, Repr

/-- The wording of an error. -/
def StoreError.message : StoreError → String
  | .notFound id => "file execution " ++ id ++ " not found"
  | .invalidTransition e => e.message
  | .invalidLimit limit =>
    "invalid concurrency limit " ++ toString limit ++ ": must be at least 1"
  | .corrupt reason => "corrupt row: " ++ reason

end ExecutionControl
