import ExecutionControl.CommandLine.Operator
import ExecutionControl.Reports.Machine
import ExecutionControl.Reports.Table
import ExecutionControl.Tracking.Tracker

/-! # The operator tool

    What each command of the operator tool does and prints.
-/

namespace ExecutionControl.CommandLine

/-- What a command prints, and whether it succeeds. -/
inductive Printed where
  /-- The command succeeds and prints this on standard output. -/
  | success (text : String)
  /-- The command fails and prints this on standard error. -/
  | failure (text : String)
  deriving DecidableEq, Repr

/-- What is printed when an error ends a command. -/
def Printed.ofError (message : String) : Printed := .failure ("Error: " ++ message ++ "\n")

/-- What is printed after an operator action. -/
def Printed.ofAction {α : Type} (action : Operator.Action α) (print : α → String) :
    Program Printed := do
  match ← action.run with
  | .ok a => return .success (print a)
  | .error e => return .ofError e.message

/-- A JSON value on lines of its own. -/
def jsonLines (j : Json) : String := j.pretty ++ "\n"

/-- What the operator tool works with. -/
structure Console where
  operator : Operator
  /-- Whether to print JSON where there is a choice. -/
  json : Bool

namespace Console

/-- Drop cached limits. -/
def clear (c : Console) : ClearTarget → Program Printed
  | .org orgId => Printed.ofAction (Operator.clearOrgCache orgId) fun existed =>
    if existed then "✓ Cleared cached limit for org " ++ orgId ++ "\n"
    else "No cached limit for org " ++ orgId ++ "\n"
  | .all => Printed.ofAction Operator.clearAllCaches fun n =>
    "✓ Cleared " ++ toString n ++ " cached limit(s)\n"
  | .custom => Printed.ofAction c.operator.clearCustomCaches fun n =>
    "✓ Cleared caches for " ++ toString n ++ " org(s) with custom limits\n"

/-- What is printed of the status of an execution. -/
def printStatus (c : Console) (executionId : String) : StatusLookup → Checked Printed
  | .found record =>
    if c.json then .ok (.success (jsonLines record.toJson)) else record.sheet.map .success
  | .missing => .ok (.failure
    ("✗ No status for execution " ++ executionId ++ " (never created or expired)\n"))
  | .unknown => .ok (.ofError "status store unavailable")

/-- Carry a command out. -/
def perform (c : Console) : OperatorCommand → Program (Checked Printed)
  | .clearCache target => .ok <$> c.clear target
  | .listLimits => .ok <$> Printed.ofAction (Operator.onStore (Program.limits .list)) fun rows =>
    if c.json then jsonLines (OrgLimit.listJson rows) else OrgLimit.table rows
  | .setLimit orgId limit =>
    .ok <$> Printed.ofAction (c.operator.setCustomLimit orgId limit) fun _ =>
    "✓ Org " ++ orgId ++ " limited to " ++ toString limit ++ " concurrent execution(s)\n"
  | .deleteLimit orgId =>
    .ok <$> Printed.ofAction (c.operator.deleteCustomLimit orgId) fun existed =>
    if existed then "✓ Removed custom limit for org " ++ orgId ++ "\n"
    else "Org " ++ orgId ++ " has no custom limit\n"
  | .usage orgId => .ok <$> Printed.ofAction (c.operator.usageReport orgId) fun report =>
    if c.json then jsonLines report.toJson else report.table
  | .status workflowId executionId =>
    c.printStatus executionId <$> Tracker.get workflowId executionId
  | .sweep =>
    .ok <$> Printed.ofAction (Operator.onCoord c.operator.admission.sweepAll) fun report =>
    if c.json then jsonLines report.toJson else report.line

end Console

end ExecutionControl.CommandLine
