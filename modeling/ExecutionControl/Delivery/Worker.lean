import ExecutionControl.Delivery.Broker
import ExecutionControl.Event
import ExecutionControl.Routing.Router

/-! # Workers

    A worker takes one message from a queue, works on it and settles its delivery. A
    message is acknowledged only after the work succeeded; otherwise it is tried again
    as the queue says, and given up once it may not be tried any more.
-/

namespace ExecutionControl

/-- The work on one message. -/
structure Attempt where
  /-- How long it takes. -/
  took : Duration
  /-- What went wrong, if something did. -/
  failure : Option String

/-- How a worker settles a delivery. -/
inductive Settlement where
  /-- There was nothing to work on. -/
  | idle
  /-- The work succeeded. -/
  | acked (messageId : String)
  /-- The work failed and will be tried again after the delay. -/
  | retried (messageId : String) (attempt : Nat) (delay : Duration)
  /-- The work failed for good. -/
  | deadLettered (messageId : String)
  deriving DecidableEq

/-- One turn of a worker. -/
structure Turn where
  /-- The message that was worked on. -/
  handled : Option TaskMessage
  /-- How it was settled, unless an overflow ended the turn. -/
  result : Checked (Except UnknownDelivery Settlement)
  /-- What operators are told. -/
  events : List Event
  /-- The broker after the turn. -/
  broker : Broker TaskMessage
  /-- The time at which the turn ends. -/
  finishedAt : Moment

namespace Router

/-- Put a route to use: publish a message on the queue of its task, which is given
    back. -/
def dispatch (r : Router) (b : Broker TaskMessage) (now : Moment) (m : TaskMessage) :
    Checked (String × Broker TaskMessage) :=
  (b.publish now (r.route m.task).queue m).map fun b => ((r.route m.task).queue, b)

/-- Settle the delivery of a message whose work is over; `draw` is what chance gives. -/
def settle (r : Router) (b : Broker TaskMessage) (now : Moment) (d : Delivery TaskMessage)
    (failure : Option String) (draw : Draw) : Turn :=
  let finish (result : Checked (Except UnknownDelivery Settlement)) (events : List Event)
      (b : Broker TaskMessage) : Turn := ⟨some d.message, result, events, b, now⟩
  match failure with
  | none =>
    let (result, b) := b.ack d.tag
    finish (.ok (result.map fun _ => .acked d.message.id)) [] b
  | some e =>
    match d.message.failedOnce with
    | .error overflow => finish (.error overflow) [] b
    | .ok failed =>
      -- The delivery may have timed out while it was worked on; then settling it fails.
      let attempt := failed.failures
      let policy := r.retryPolicyFor d.queue
      if policy.shouldRetry attempt then
        match policy.jitteredDelay attempt draw with
        | .error overflow => finish (.error overflow) [] b
        | .ok delay =>
          let (result, b) := b.nack now d.tag (some delay)
          finish (result.map fun x => x.map fun _ => .retried d.message.id attempt delay)
            [.taskRetried e attempt] b
      else
        let (result, b) := b.nack now d.tag none
        finish (result.map fun x => x.map fun _ => .deadLettered d.message.id)
          [.taskExhausted e attempt] b

/-- Take one message from a queue, work on it and settle it. -/
def processNext (r : Router) (b : Broker TaskMessage) (now : Moment) (queue : String)
    (work : TaskMessage → Attempt) (draw : Draw) : Turn :=
  match b.receive now queue with
  | (.error overflow, b) => ⟨none, .error overflow, [], b, now⟩
  | (.ok none, b) => ⟨none, .ok (.ok .idle), [], b, now⟩
  | (.ok (some d), b) =>
    let attempt := work d.message
    r.settle b (now + attempt.took.nanos) d attempt.failure draw

end Router

end ExecutionControl
