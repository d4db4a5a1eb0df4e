/-! # JSON values

    Values as they travel in task payloads. Whole numbers that fit in 64 bits, with
    or without a sign, are kept exactly; all other numbers are floating-point. The
    fields of an object are kept in ascending order of their keys, each key once.
-/

namespace ExecutionControl

/-- A JSON number. -/
inductive Json.Number where
  /-- A whole number between -2^63 and 2^64 - 1. -/
  | int (n : Int)
  /-- Any other number. -/
  | float (x : Float)

/-- A JSON value. -/
inductive Json where
  | null
  | bool (b : Bool)
  | num (n : Json.Number)
  | str (s : String)
  | arr (items : List Json)
  | obj (fields : List (String × Json))
  deriving Inhabited

namespace Json

/-- A natural number as a value. -/
def nat (n : Nat) : Json := .num (.int n)

/-- A number, or `null` where there is none or where it is not finite. -/
def ofFloat (x : Float) : Json := if x.isFinite then .num (.float x) else .null

/-- A text, or `null` where there is none. -/
def ofText? (s : Option String) : Json := s.elim .null .str

/-- Put a field into ascending fields; a field of the same key is replaced. -/
def insertField (key : String) (value : Json) : List (String × Json) → List (String × Json)
  | [] => [(key, value)]
  | (k, v) :: rest =>
    if key < k then (key, value) :: (k, v) :: rest
    else if key = k then (key, value) :: rest
    else (k, v) :: insertField key value rest

/-- The value of a field. -/
def field? (key : String) : Json → Option Json
  | .obj fields => (fields.find? fun p => p.1 == key).map (·.2)
  | _ => none

end Json

end ExecutionControl
