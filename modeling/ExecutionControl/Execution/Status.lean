import ExecutionControl.Json.Record
import ExecutionControl.Text.Letter
import ExecutionControl.Text.Quoted

/-! # Execution status

    The life of an execution and of each of its files. A status moves forward through
    `pending`, `initiated`, `queued`, `ready` and `executing`, in any jumps, and ends in
    one of three terminal statuses.
-/

namespace ExecutionControl

/-- The status of an execution or of one of its files. -/
inductive ExecutionStatus where
  | pending
  | initiated
  /-- Handed to a queue; no worker has picked it up yet. -/
  | queued
  /-- Picked up by a worker, about to run. -/
  | ready
  | executing
  | completed
  /-- Cancelled by an operator, which is not a failure. -/
  | stopped
  | error
  deriving DecidableEq, Repr

/-- A text that names no status. -/
structure InvalidStatusValue where
  /-- The text as it was given. -/
  value : String
  deriving DecidableEq, Repr

/-- The wording of the error. -/
def InvalidStatusValue.message (e : InvalidStatusValue) : String :=
  "invalid execution status value: " ++ Text.quoted e.value

namespace ExecutionStatus

/-- All statuses in forward order. -/
def all : List ExecutionStatus :=
  [.pending, .initiated, .queued, .ready, .executing, .completed, .stopped, .error]

theorem mem_all (s : ExecutionStatus) : s ∈ all := by cases s <;> decide

/-- The name of a status. -/
def name : ExecutionStatus → String
  | .pending => "PENDING"
  | .initiated => "INITIATED"
  | .queued => "QUEUED"
  | .ready => "READY"
  | .executing => "EXECUTING"
  | .completed => "COMPLETED"
  | .stopped => "STOPPED"
  | .error => "ERROR"

/-! ### Moves -/

/-- Whether a status is one of the last. -/
def isTerminal : ExecutionStatus → Bool
  | .completed | .stopped | .error => true
  | _ => false

/-- The place of a status in the forward order; the terminal statuses share the last. -/
def rank : ExecutionStatus → Nat
  | .pending => 0
  | .initiated => 1
  | .queued => 2
  | .ready => 3
  | .executing => 4
  | .completed | .stopped | .error => 5

/-- Whether a status may be followed by another. Staying in place is allowed, so that
    a repeated message does no harm; so is any jump forward from a status that is not
    terminal. -/
def canMoveTo (a b : ExecutionStatus) : Bool :=
  a == b || (!a.isTerminal && a.rank < b.rank)

/-! ### Names -/

/-- The status with exactly this name. -/
def ofName? (s : String) : Option ExecutionStatus := all.find? fun x => x.name == s

/-- The status whose name is this text up to letter case. -/
def ofLetters? (cs : List Char) : Option ExecutionStatus :=
  all.find? fun x => Text.sameLetters x.name.toList cs

/-- The first part of a qualified status name. -/
def qualifier : List Char := "ExecutionStatus".toList

/-- The status that some characters name, without regard to letter case: the bare name,
    or the name after `ExecutionStatus` and a dot. -/
def ofChars? (cs : List Char) : Option ExecutionStatus :=
  match cs.dropWhile (· != '.') with
  | [] => ofLetters? cs
  | _ :: name =>
    if Text.sameLetters (cs.takeWhile (· != '.')) qualifier then ofLetters? name else none

/-- Read a status from text with blanks around it. -/
def parse (s : String) : Except InvalidStatusValue ExecutionStatus :=
  match ofChars? (Text.trimChars s.toList) with
  | some x => .ok x
  | none => .error ⟨s⟩

/-! ### JSON -/

/-- A status by its name. -/
def toJson (s : ExecutionStatus) : Json := .str s.name

/-- Read a status by its exact name. -/
def reader : Json.Reader ExecutionStatus := Json.readName ofName?

end ExecutionStatus

end ExecutionControl
