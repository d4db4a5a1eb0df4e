/-! # Errors of the coordination store -/

namespace ExecutionControl

/-- Why a call to the coordination store fails. -/
inductive CoordError where
  /-- The store cannot be reached. -/
  | unavailable (reason : String)
  /-- The store has no such operation. -/
  | unsupported (adapter operation : String)
  /-- The key holds a value of another type than the operation works on. -/
  | wrongType (key : String)
  /-- The value under the key cannot be made sense of. -/
  | corrupt (key reason : String)
  /-- Too many others changed the key at the same time. -/
  | contentionExhausted (key : String)
  deriving DecidableEq, Repr

namespace CoordError

/-- The wording of an error. -/
def message : CoordError → String
  | .unavailable reason => "coordination store unavailable: " ++ reason
  | .unsupported adapter operation =>
    "operation not supported by " ++ adapter ++ ": " ++ operation
  | .wrongType key => "wrong type for key " ++ key
  | .corrupt key reason => "corrupt value under " ++ key ++ ": " ++ reason
  | .contentionExhausted key => "too much contention on " ++ key

/-- Whether the store could not be reached at all. -/
def isUnavailable : CoordError → Bool
  | .unavailable _ => true
  | _ => false

end CoordError

end ExecutionControl
