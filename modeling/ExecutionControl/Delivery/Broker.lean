import Std.Data.ExtTreeMap
import ExecutionControl.Delivery.Message
import ExecutionControl.Duration

/-! # The broker

    Queues of messages. A message that is handed out stays in flight until its delivery
    is settled: acknowledged, put back, or given up. A delivery that is not settled in
    time goes back to the front of its queue, as if its worker had died, and the
    message is handed out again under a new tag.

    The broker does not look into the messages, so that they may be of any type that
    counts failures. A call that overflows ends there and then: a message that it has
    taken from its place by then is gone.
-/

namespace ExecutionControl

/-- Messages that count the attempts at them that failed. -/
class CountsFailures (α : Type) where
  /-- The same message with one more failure, unless that overflows. -/
  failedOnce : α → Checked α

instance : CountsFailures TaskMessage := ⟨TaskMessage.failedOnce⟩

/-- A message that waits in a queue. -/
structure Pending (α : Type) where
  message : α
  /-- The time from which the message may be handed out. -/
  visibleAt : Moment

/-- A message that a worker holds. -/
structure Flight (α : Type) where
  /-- The queue that it came from. -/
  queue : String
  message : α
  /-- The time from which the worker counts as dead. -/
  deadline : Moment

/-- A message as a worker gets it. -/
structure Delivery (α : Type) where
  /-- The number that settles the delivery. -/
  tag : Nat
  queue : String
  message : α

/-- No delivery is in flight under this tag. -/
structure UnknownDelivery where
  tag : Nat
  deriving DecidableEq, Repr

/-- The wording of the error. -/
def UnknownDelivery.message (e : UnknownDelivery) : String :=
  "unknown delivery tag " ++ toString e.tag

/-- The queues with what is in flight and what was given up. -/
structure Broker (α : Type) where
  /-- How long a worker may hold a message. -/
  visibility : Duration
  /-- The messages that wait in each queue. -/
  queues : Std.ExtTreeMap String (List (Pending α)) := {}
  /-- What is in flight, by tag. -/
  inFlight : Std.ExtTreeMap Nat (Flight α) := {}
  /-- The messages that were given up, the oldest first. -/
  deadLetters : List α := []
  /-- The last tag that was used. -/
  lastTag : Nat := 0

namespace Broker

variable {α : Type}

/-! ### Queues -/

/-- What waits in a queue. -/
def pending (b : Broker α) (queue : String) : List (Pending α) := b.queues.getD queue []

/-- Write what waits in a queue. -/
def setPending (b : Broker α) (queue : String) (ps : List (Pending α)) : Broker α :=
  { b with queues := b.queues.insert queue ps }

@[simp] theorem pending_setPending_self (b : Broker α) (queue : String) (ps : List (Pending α)) :
    (b.setPending queue ps).pending queue = ps := by
  simp [setPending, pending]

theorem pending_setPending_of_ne (b : Broker α) {queue other : String} (ps : List (Pending α))
    (h : other ≠ queue) : (b.setPending queue ps).pending other = b.pending other := by
  simp only [setPending, pending, Std.ExtTreeMap.getD_insert]
  split
  · rename_i hc
    exact absurd (Std.LawfulEqCmp.eq_of_compare hc).symm h
  · rfl

/-- How many messages wait in a queue. -/
def depth (b : Broker α) (queue : String) : Nat := (b.pending queue).length

/-- Put a message at the end of a queue; it is handed out after the delay. -/
def publish (b : Broker α) (now : Moment) (queue : String) (m : α)
    (delay : Duration := .zero) : Checked (Broker α) :=
  (now.after delay).map fun visibleAt =>
    b.setPending queue (b.pending queue ++ [⟨m, visibleAt⟩])

/-! ### Timeouts -/

/-- The tags of the deliveries that were not settled in time, the oldest first. -/
def expired (b : Broker α) (now : Moment) : List Nat :=
  (b.inFlight.toList.filter fun p => p.2.deadline ≤ now).map (·.1)

/-- Put a delivery back in front of its queue, ready to be handed out. -/
def requeue (b : Broker α) (now : Moment) (tag : Nat) : Broker α :=
  match b.inFlight[tag]? with
  | none => b
  | some f =>
    { b with inFlight := b.inFlight.erase tag }.setPending f.queue
      (⟨f.message, now⟩ :: b.pending f.queue)

/-- Put deliveries back one after another, from the last to the first. -/
def requeueAll (b : Broker α) (now : Moment) (tags : List Nat) : Broker α :=
  tags.foldr (fun tag b => b.requeue now tag) b

/-- Put back every delivery that was not settled in time, so that the oldest comes out
    first; says how many there were. -/
def requeueExpired (b : Broker α) (now : Moment) : Nat × Broker α :=
  ((b.expired now).length, b.requeueAll now (b.expired now))

/-! ### Handing out -/

/-- Take the first message that may be handed out. -/
def takeVisible (now : Moment) : List (Pending α) → Option (α × List (Pending α))
  | [] => none
  | p :: rest =>
    if p.visibleAt ≤ now then some (p.message, rest)
    else (takeVisible now rest).map fun r => (r.1, p :: r.2)

/-- The tag of the next delivery, which must fit in 64 bits. -/
def nextTag (b : Broker α) : Checked Nat :=
  if b.lastTag < Text.maxWord64 then .ok (b.lastTag + 1) else .error .count

/-- Hand out a message that was taken from a queue, under a new tag. -/
def handOut (b : Broker α) (now : Moment) (queue : String) (m : α) :
    Checked (Delivery α) × Broker α :=
  match b.nextTag with
  | .error e => (.error e, b)
  | .ok tag =>
    match now.after b.visibility with
    | .error e => (.error e, { b with lastTag := tag })
    | .ok deadline =>
      (.ok ⟨tag, queue, m⟩,
        { b with lastTag := tag, inFlight := b.inFlight.insert tag ⟨queue, m, deadline⟩ })

/-- Hand out the first message of a queue that may be handed out. -/
def deliver (b : Broker α) (now : Moment) (queue : String) :
    Checked (Option (Delivery α)) × Broker α :=
  match takeVisible now (b.pending queue) with
  | none => (.ok none, b)
  | some (m, rest) =>
    let (delivery, b) := (b.setPending queue rest).handOut now queue m
    (delivery.map some, b)

/-- Hand out the first message of a queue that may be handed out, after late deliveries
    are put back. -/
def receive (b : Broker α) (now : Moment) (queue : String) :
    Checked (Option (Delivery α)) × Broker α :=
  (b.requeueExpired now).2.deliver now queue

/-! ### Settling -/

/-- Remove a delivery from what is in flight. -/
def land (b : Broker α) (tag : Nat) : Broker α := { b with inFlight := b.inFlight.erase tag }

/-- Acknowledge a delivery: its message is done with. -/
def ack (b : Broker α) (tag : Nat) : Except UnknownDelivery Unit × Broker α :=
  match b.inFlight[tag]? with
  | none => (.error ⟨tag⟩, b)
  | some _ => (.ok (), b.land tag)

/-- Give a message up. -/
def bury (b : Broker α) (m : α) : Broker α :=
  { b with deadLetters := b.deadLetters ++ [m] }

/-- Put a message whose attempt failed at the end of its queue after a delay, or else give
    it up. -/
def putBack (b : Broker α) (now : Moment) (queue : String) (m : α) :
    Option Duration → Checked (Broker α)
  | some delay => b.publish now queue m delay
  | none => .ok (b.bury m)

/-- Hand a delivery back after an attempt that failed. It is no longer in flight even if the
    call overflows. -/
def nack [CountsFailures α] (b : Broker α) (now : Moment) (tag : Nat)
    (requeueAfter : Option Duration) : Checked (Except UnknownDelivery Unit) × Broker α :=
  match b.inFlight[tag]? with
  | none => (.ok (.error ⟨tag⟩), b)
  | some f =>
    match CountsFailures.failedOnce f.message >>= fun m =>
        (b.land tag).putBack now f.queue m requeueAfter with
    | .error e => (.error e, b.land tag)
    | .ok b => (.ok (.ok ()), b)

end Broker

end ExecutionControl
