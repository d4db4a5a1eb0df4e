import ExecutionControl.Decimal.FixedPlaces
import ExecutionControl.Operator
import ExecutionControl.Text.Column
import ExecutionControl.Timestamp.Text
import ExecutionControl.Tracking.Record

/-! # Tables for operators

    What the operator tool prints for people to read.
-/

namespace ExecutionControl

open Text Decimal

/-! ### Usage -/

/-- One line of the usage table. -/
def UsageReport.line (scope running limit used : String) : String :=
  "  " ++ alignLeft 10 scope ++ " " ++ alignRight 8 running ++ " " ++ alignRight 8 limit ++ " " ++
    used ++ "\n"

/-- A percentage in its column. -/
def UsageReport.percentCell (x : Float) : String := alignRight 7 (oneDecimal x) ++ "%"

/-- The usage table, with a warning where usage is high. -/
def UsageReport.table (r : UsageReport) : String :=
  "\n=== Usage for org " ++ r.orgId ++ " ===\n\n" ++
  line "Scope" "Running" "Limit" (alignRight 8 "Used") ++
  line "org" (toString r.orgCount) (toString r.orgLimit) (percentCell r.orgPercent) ++
  line "global" (toString r.globalCount) (toString r.globalLimit) (percentCell r.globalPercent) ++
  "\n  Org limit source: " ++ (if r.customLimit then "custom" else "system default") ++ "\n" ++
  (match r.level.banner with
    | some banner => "\n  ⚠ " ++ banner ++ "\n"
    | none => "")

/-! ### Limits -/

/-- One line of the table of custom limits. -/
def OrgLimit.line (orgId limit modified : String) : String :=
  alignLeft 30 orgId ++ " " ++ alignRight 8 limit ++ " " ++ alignLeft 25 modified ++ "\n"

/-- The table of custom limits. -/
def OrgLimit.table (rows : List OrgLimit) : String :=
  if rows.isEmpty then "No custom limits configured.\n"
  else
    "\n" ++ line "Org ID" "Limit" "Modified" ++ rule 65 ++ "\n" ++
      String.join (rows.map fun r =>
        line r.orgId (toString r.concurrentRequestLimit) r.modifiedAt.cellText)

/-! ### Status -/

/-- The sheet of an execution. -/
def StatusRecord.sheet (r : StatusRecord) : Checked String := do
  let progress := ((← r.progress).map fun p => oneDecimal p ++ "%").getD "N/A"
  return "\n=== Execution " ++ r.executionId ++ " ===\n\n" ++
    "  Workflow:  " ++ r.workflowId ++ "\n" ++
    "  Status:    " ++ r.status.name ++ "\n" ++
    "  Files:     " ++ toString r.completedFiles ++ " completed, " ++ toString r.failedFiles ++
      " failed, " ++ toString r.totalFiles ++ " total\n" ++
    "  Progress:  " ++ progress ++ "\n" ++
    "  Created:   " ++ r.createdAt.offsetText ++ "\n" ++
    "  Updated:   " ++ r.updatedAt.offsetText ++ "\n"

/-! ### Sweeps -/

/-- The line after a sweep. -/
def SweepReport.line (r : SweepReport) : String :=
  "✓ Swept " ++ toString r.orgSets ++ " org slot set(s), reclaimed " ++ toString r.reclaimed ++
    " stale slot(s)\n"

end ExecutionControl
