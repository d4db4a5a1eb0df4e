import ExecutionControl.Routing.QueueClass
import ExecutionControl.Settings
import ExecutionControl.Text.Letter

/-! # Routing

    Which queue a task goes to and how it is tried again. With routing off every task
    goes to the default queue, which fits a deployment with a single pool of workers.
    Several classes may share a queue; the first class that has a queue decides how its
    tasks are tried again.
-/

namespace ExecutionControl

/-- How tasks are routed. -/
structure RoutingConfig where
  /-- Whether tasks go to the queues of their classes. -/
  enabled : Bool
  /-- The name of the queue of each class. -/
  queueName : QueueClass → String

namespace RoutingConfig

/-- Routing off, and queues named for their classes. -/
def plain : RoutingConfig := ⟨false, QueueClass.name⟩

/-- Routing on, and queues named for their classes. -/
def routed : RoutingConfig := ⟨true, QueueClass.name⟩

/-- The words that switch routing on, in any letter case. -/
def onWords : List String := ["1", "true", "yes", "on"]

/-- Whether a text switches routing on. -/
def isOn (raw : String) : Bool :=
  onWords.any fun word => Text.sameLetters word.toList (Text.trimChars raw.toList)

/-- The name of the queue of a class; a blank setting leaves the name of the class. -/
def queueNameIn (s : Settings) (c : QueueClass) : String :=
  match s c.settingName with
  | none => c.name
  | some raw => if (Text.trim raw).isEmpty then c.name else Text.trim raw

/-- The routing that some settings ask for. -/
def ofSettings (s : Settings) : RoutingConfig :=
  ⟨(s "DOCFLOW_TASK_ROUTING_ENABLED").any isOn, queueNameIn s⟩

/-- Give the queue of a class another name. -/
def withQueueName (r : RoutingConfig) (c : QueueClass) (name : String) : RoutingConfig :=
  { r with queueName := fun d => if d = c then name else r.queueName d }

end RoutingConfig

/-- Where a task goes and how it is tried again. -/
structure Route where
  task : String
  queueClass : QueueClass
  queue : String
  retry : RetryPolicy
  deriving DecidableEq

/-- Put a text into ascending texts, unless it is there. -/
def insertText (s : String) : List String → List String
  | [] => [s]
  | t :: rest =>
    if s < t then s :: t :: rest
    else if s = t then t :: rest
    else t :: insertText s rest

/-- Routing by a configuration. -/
structure Router where
  config : RoutingConfig

namespace Router

/-- Where a task goes. -/
def route (r : Router) (task : String) : Route :=
  let c := if r.config.enabled then QueueClass.classify task else .default
  ⟨task, c, r.config.queueName c, c.retryPolicy⟩

/-- How the tasks of a queue are tried again; a queue of no class is treated like the
    default one. -/
def retryPolicyFor (r : Router) (queue : String) : RetryPolicy :=
  ((QueueClass.all.find? fun c => r.config.queueName c == queue).getD .default).retryPolicy

/-- The queues that workers have to look after, in ascending order. -/
def queues (r : Router) : List String :=
  if r.config.enabled then (QueueClass.all.map r.config.queueName).foldr insertText []
  else [r.config.queueName .default]

end Router

end ExecutionControl
