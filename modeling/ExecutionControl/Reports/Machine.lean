import ExecutionControl.Json.Writer
import ExecutionControl.Operator
import ExecutionControl.Timestamp.Text
import ExecutionControl.Tracking.Record

/-! # JSON for operators

    What the operator tool prints for other programs to read.
-/

namespace ExecutionControl

/-- Usage as a JSON object. -/
def UsageReport.toJson (r : UsageReport) : Json :=
  .obj [("org_id", .str r.orgId), ("org_count", Json.nat r.orgCount),
    ("org_limit", Json.nat r.orgLimit), ("org_percent", Json.ofFloat r.orgPercent),
    ("custom_limit", .bool r.customLimit), ("global_count", Json.nat r.globalCount),
    ("global_limit", Json.nat r.globalLimit), ("global_percent", Json.ofFloat r.globalPercent),
    ("level", .str r.level.name)]

/-- A custom limit as a JSON object. -/
def OrgLimit.toJson (r : OrgLimit) : Json :=
  .obj [("org_id", .str r.orgId), ("concurrent_request_limit", Json.nat r.concurrentRequestLimit),
    ("modified_at", .str r.modifiedAt.text)]

/-- Custom limits as a JSON array. -/
def OrgLimit.listJson (rows : List OrgLimit) : Json := .arr (rows.map toJson)

/-- The status of an execution as a JSON object. -/
def StatusRecord.toJson (r : StatusRecord) : Json :=
  .obj [("workflow_id", .str r.workflowId), ("execution_id", .str r.executionId),
    ("status", r.status.toJson), ("completed_files", Json.nat r.completedFiles),
    ("failed_files", Json.nat r.failedFiles), ("total_files", Json.nat r.totalFiles),
    ("created_at", .str r.createdAt.text), ("updated_at", .str r.updatedAt.text)]

/-- What a sweep found as a JSON object. -/
def SweepReport.toJson (r : SweepReport) : Json :=
  .obj [("org_sets", Json.nat r.orgSets), ("reclaimed", Json.nat r.reclaimed)]

end ExecutionControl
