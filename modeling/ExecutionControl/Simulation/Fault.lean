import ExecutionControl.Coordination.Call

/-! # Faults

    Rules by which chosen calls to the coordination store fail instead of reaching it.
    The rules are looked at in order; a rule first lets some calls pass, then fails
    some, and then has no effect any more.
-/

namespace ExecutionControl

/-- How a call fails. -/
inductive FaultKind where
  | unavailable
  | unsupported
  | wrongType
  | corrupt
  | contention
  deriving DecidableEq, Repr

/-- The error of a call that fails. -/
def FaultKind.error (call : CoordCall) : FaultKind → CoordError
  | .unavailable => .unavailable "injected"
  | .unsupported => .unsupported "injected" call.method
  | .wrongType => .wrongType call.subject
  | .corrupt => .corrupt call.subject "injected"
  | .contention => .contentionExhausted call.subject

/-- A rule. -/
structure FaultRule where
  /-- The method whose calls fail, or `*` for all. -/
  method : String
  /-- How many calls are let pass first. -/
  skip : Nat := 0
  /-- How many calls fail then. -/
  times : Nat := 1
  kind : FaultKind := .unavailable
  deriving DecidableEq, Repr

/-- Whether a rule is about calls of a method. -/
def FaultRule.covers (r : FaultRule) (method : String) : Bool :=
  r.method == "*" || r.method == method

/-- Look at the rules for a call of a method. Gives back how the call fails, if it does,
    and the rules for the calls after it. -/
def FaultRule.fire (method : String) : List FaultRule → Option FaultKind × List FaultRule
  | [] => (none, [])
  | r :: rest =>
    let (kind, after) := fire method rest
    if !r.covers method then (kind, r :: after)
    else if 0 < r.skip then (kind, { r with skip := r.skip - 1 } :: after)
    else if 0 < r.times then (some r.kind, { r with times := r.times - 1 } :: rest)
    else (kind, r :: after)

end ExecutionControl
