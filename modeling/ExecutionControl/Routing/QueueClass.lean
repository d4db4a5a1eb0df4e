import ExecutionControl.Routing.RetryPolicy

/-! # Queue classes

    The pools of workers. Each class of tasks has a queue of its own, so that one kind
    of work cannot starve another.
-/

namespace ExecutionControl

/-- A pool of workers. -/
inductive QueueClass where
  /-- All tasks without a queue of their own. -/
  | default
  | scheduler
  | notifications
  | fileProcessing
  /-- What follows once all files of an execution are done. It is kept apart from file
      processing, so that many files cannot delay the release of a slot. -/
  | fileProcessingCallback
  | apiDeployments
  deriving DecidableEq, Repr

/-- A text that names no queue class. -/
structure UnknownQueueClass where
  name : String
  deriving DecidableEq, Repr

namespace QueueClass

/-- All classes. -/
def all : List QueueClass :=
  [.default, .scheduler, .notifications, .fileProcessing, .fileProcessingCallback,
    .apiDeployments]

theorem mem_all (c : QueueClass) : c ∈ all := by cases c <;> decide

/-- The name of a class, and of its queue unless another one is set. -/
def name : QueueClass → String
  | .default => "default"
  | .scheduler => "scheduler"
  | .notifications => "notifications"
  | .fileProcessing => "file_processing"
  | .fileProcessingCallback => "file_processing_callback"
  | .apiDeployments => "api_deployments"

/-- The setting that gives the queue of a class another name. -/
def settingName : QueueClass → String
  | .default => "DOCFLOW_QUEUE_DEFAULT"
  | .scheduler => "DOCFLOW_QUEUE_SCHEDULER"
  | .notifications => "DOCFLOW_QUEUE_NOTIFICATIONS"
  | .fileProcessing => "DOCFLOW_QUEUE_FILE_PROCESSING"
  | .fileProcessingCallback => "DOCFLOW_QUEUE_FILE_PROCESSING_CALLBACK"
  | .apiDeployments => "DOCFLOW_QUEUE_API_DEPLOYMENTS"

/-- How the tasks of a class are tried again. Receivers of notifications fail often and
    recover slowly, so that these wait longest. -/
def retryPolicy : QueueClass → RetryPolicy
  | .default => ⟨3, .seconds 5, .seconds 60, true⟩
  | .scheduler => ⟨3, .seconds 10, .seconds 120, true⟩
  | .notifications => ⟨5, .seconds 10, .seconds 600, true⟩
  | .fileProcessing => ⟨3, .seconds 2, .seconds 60, true⟩
  | .fileProcessingCallback => ⟨5, .seconds 1, .seconds 30, false⟩
  | .apiDeployments => ⟨3, .seconds 5, .seconds 120, false⟩

/-! ### Tasks -/

/-- The tasks with a queue of their own. -/
def taskRoutes : List (String × QueueClass) :=
  [("trigger_scheduled_workflow", .scheduler), ("send_webhook_notification", .notifications),
    ("process_file_batch", .fileProcessing), ("process_batch_callback", .fileProcessingCallback),
    ("deploy_api", .apiDeployments), ("undeploy_api", .apiDeployments)]

/-- The class of a task. -/
def classify (task : String) : QueueClass := (taskRoutes.lookup task).getD .default

/-! ### Names -/

/-- The class with exactly this name. -/
def ofName? (s : String) : Option QueueClass := all.find? fun c => c.name == s

/-- The class with exactly this name, or what is wrong. -/
def parse (s : String) : Except UnknownQueueClass QueueClass :=
  match ofName? s with
  | some c => .ok c
  | none => .error ⟨s⟩

/-- A class by its name. -/
def toJson (c : QueueClass) : Json := .str c.name

/-- Read a class by its exact name. -/
def reader : Json.Reader QueueClass := Json.readName ofName?

end QueueClass

/-- The wording of the error, which lists all names. -/
def UnknownQueueClass.message (e : UnknownQueueClass) : String :=
  "unknown queue class '" ++ e.name ++ "', available: " ++
    ", ".intercalate (QueueClass.all.map QueueClass.name)

end ExecutionControl
