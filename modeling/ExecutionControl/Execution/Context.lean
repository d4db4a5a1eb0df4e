import ExecutionControl.Json.Record

/-! # Execution context

    The identity of one workflow execution. It is handed along explicitly with every
    admission, tracking and dispatching step.
-/

namespace ExecutionControl

/-- The identity of one workflow execution. -/
structure ExecutionContext where
  /-- The organisation on whose behalf the execution runs. -/
  orgId : String
  workflowId : String
  executionId : String
  /-- Ties together what different services report about the execution. -/
  correlationId : String
  deriving DecidableEq, Repr

namespace ExecutionContext

/-- The fields of a context that have been read. -/
structure Draft where
  orgId : Option String := none
  workflowId : Option String := none
  executionId : Option String := none
  correlationId : Option String := none

/-- The fields of a context in order. -/
def fields : List (Json.Field Draft) :=
  [{ name := "org_id", given := (·.orgId.isSome),
     read := fun d => (fun s => { d with orgId := some s }) <$> Json.readText },
   { name := "workflow_id", given := (·.workflowId.isSome),
     read := fun d => (fun s => { d with workflowId := some s }) <$> Json.readText },
   { name := "execution_id", given := (·.executionId.isSome),
     read := fun d => (fun s => { d with executionId := some s }) <$> Json.readText },
   { name := "correlation_id", given := (·.correlationId.isSome),
     read := fun d => (fun s => { d with correlationId := some s }) <$> Json.readText }]

/-- The context of a draft that has every field. -/
def Draft.finish (d : Draft) : Option ExecutionContext := do
  some ⟨← d.orgId, ← d.workflowId, ← d.executionId, ← d.correlationId⟩

/-- Read a context from JSON text. -/
def reader (depth : Nat) : Json.Reader ExecutionContext :=
  Json.readRecord fields false {} Draft.finish depth

/-- A context as a JSON object. -/
def toJson (c : ExecutionContext) : Json :=
  .obj [("org_id", .str c.orgId), ("workflow_id", .str c.workflowId),
    ("execution_id", .str c.executionId), ("correlation_id", .str c.correlationId)]

/-- A context from a JSON value: an object, or an array of its four fields. -/
def ofJson? : Json → Option ExecutionContext
  | .arr [.str o, .str w, .str e, .str c] => some ⟨o, w, e, c⟩
  | .obj fields =>
    match Json.field? "org_id" (.obj fields), Json.field? "workflow_id" (.obj fields),
      Json.field? "execution_id" (.obj fields), Json.field? "correlation_id" (.obj fields) with
    | some (.str o), some (.str w), some (.str e), some (.str c) => some ⟨o, w, e, c⟩
    | _, _, _, _ => none
  | _ => none

end ExecutionContext

end ExecutionControl
