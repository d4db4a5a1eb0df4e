import ExecutionControl.Delivery.Broker

/-! # Runs of the broker

    The calls of a broker that returned, as data (`BrokerAct`), and the brokers that such
    calls lead to (`Broker.Runs`). The times of the calls are not restricted, and late
    deliveries are put back in any order: what is shown of all runs does not rest on the
    order in which the broker itself puts them back (`Broker.does_of_perform`).

    The broker does not look into its messages. A run over messages is therefore a run
    over tickets (`Ticket`), numbered by the calls that published them, with the numbers
    taken away (`Broker.Runs.ticketed`): two messages that are equal in all their fields
    are still told apart.
-/

namespace ExecutionControl

/-- A call of a broker. -/
inductive BrokerCall (α : Type) where
  | publish (queue : String) (m : α) (delay : Duration)
  | receive (queue : String)
  | ack (tag : Nat)
  | nack (tag : Nat) (requeueAfter : Option Duration)
  | requeueExpired

/-- A call of a broker that returned, with what it gave back. -/
inductive BrokerAct (α : Type) where
  | published (queue : String) (m : α) (delay : Duration)
  | received (queue : String) (d : Option (Delivery α))
  | acked (tag : Nat) (result : Except UnknownDelivery Unit)
  | nacked (tag : Nat) (requeueAfter : Option Duration) (result : Except UnknownDelivery Unit)
  | requeued (count : Nat)

/-- A message with a number of its own. -/
structure Ticket where
  number : Nat
  message : TaskMessage

instance : CountsFailures Ticket :=
  ⟨fun t => t.message.failedOnce.map fun m => { t with message := m }⟩

/-! ### Messages of another type -/

section Map

variable {α β : Type} (f : α → β)

def Pending.map (p : Pending α) : Pending β := ⟨f p.message, p.visibleAt⟩

def Flight.map (fl : Flight α) : Flight β := ⟨fl.queue, f fl.message, fl.deadline⟩

def Delivery.map (d : Delivery α) : Delivery β := ⟨d.tag, d.queue, f d.message⟩

/-- The same call on messages of another type. -/
def BrokerAct.map : BrokerAct α → BrokerAct β
  | .published queue m delay => .published queue (f m) delay
  | .received queue d => .received queue (d.map (Delivery.map f))
  | .acked tag result => .acked tag result
  | .nacked tag requeueAfter result => .nacked tag requeueAfter result
  | .requeued count => .requeued count

/-- The same broker with messages of another type. -/
def Broker.map (b : Broker α) : Broker β where
  visibility := b.visibility
  queues := b.queues.map fun _ ps => ps.map (Pending.map f)
  inFlight := b.inFlight.map fun _ fl => fl.map f
  deadLetters := b.deadLetters.map f
  lastTag := b.lastTag

namespace Broker

variable {f} {b : Broker α} {now : Moment} {queue : String}

@[simp] theorem map_pending : (b.map f).pending queue = (b.pending queue).map (Pending.map f) := by
  simp only [pending, map, Std.ExtTreeMap.getD_eq_getD_getElem?, Std.ExtTreeMap.getElem?_map]
  cases b.queues[queue]? <;> rfl

@[simp] theorem map_inFlight (tag : Nat) :
    (b.map f).inFlight[tag]? = b.inFlight[tag]?.map (Flight.map f) := by
  simp [map]

theorem map_start (visibility : Duration) :
    ({ visibility } : Broker α).map f = { visibility } := by
  simp only [map, Broker.mk.injEq, List.map_nil, true_and, and_true]
  constructor <;> (apply Std.ExtTreeMap.ext_getElem?; intro k; simp)

theorem map_setPending (ps : List (Pending α)) :
    (b.map f).setPending queue (ps.map (Pending.map f)) = (b.setPending queue ps).map f := by
  simp only [setPending, map, Broker.mk.injEq, true_and, and_true]
  apply Std.ExtTreeMap.ext_getElem?
  intro k
  simp only [Std.ExtTreeMap.getElem?_insert, Std.ExtTreeMap.getElem?_map]
  split <;> rfl

theorem map_land (tag : Nat) : (b.map f).land tag = (b.land tag).map f := by
  simp only [land, map, Broker.mk.injEq, true_and, and_true]
  apply Std.ExtTreeMap.ext_getElem?
  intro k
  simp only [Std.ExtTreeMap.getElem?_erase, Std.ExtTreeMap.getElem?_map]
  split <;> rfl

theorem map_publish (m : α) (delay : Duration) :
    (b.map f).publish now queue (f m) delay = (b.publish now queue m delay).map (map f) := by
  unfold publish
  cases now.after delay with
  | error _ => rfl
  | ok visibleAt =>
    simp only [Except.map, ← map_setPending, List.map_append, map_pending, List.map_cons,
      List.map_nil, Pending.map]

theorem map_expired : (b.map f).expired now = b.expired now := by
  simp [expired, map, List.filter_map, Function.comp_def, Flight.map]

theorem map_requeue (tag : Nat) : (b.map f).requeue now tag = (b.requeue now tag).map f := by
  unfold requeue
  rw [map_inFlight]
  cases b.inFlight[tag]? with
  | none => rfl
  | some fl =>
    simp only [Option.map_some, map_pending, ← map_setPending, List.map_cons, Flight.map,
      Pending.map]
    exact congrArg (fun b : Broker β => b.setPending _ _) (map_land tag)

theorem map_requeueAll (tags : List Nat) :
    (b.map f).requeueAll now tags = (b.requeueAll now tags).map f := by
  induction tags with
  | nil => rfl
  | cons tag tags ih => simp only [requeueAll, List.foldr_cons] at *; rw [ih, map_requeue]

theorem map_takeVisible (ps : List (Pending α)) :
    takeVisible now (ps.map (Pending.map f))
      = (takeVisible now ps).map fun r => (f r.1, r.2.map (Pending.map f)) := by
  induction ps with
  | nil => rfl
  | cons p rest ih =>
    simp only [List.map_cons, takeVisible, Pending.map]
    split
    · rfl
    · rw [ih]
      cases takeVisible now rest <;> rfl

theorem map_handOut (m : α) :
    (b.map f).handOut now queue (f m)
      = ((b.handOut now queue m).1.map (Delivery.map f), (b.handOut now queue m).2.map f) := by
  unfold handOut nextTag
  simp only [map]
  by_cases hlast : b.lastTag < Text.maxWord64
  · simp only [hlast, if_true]
    cases now.after b.visibility with
    | error _ => rfl
    | ok deadline =>
      simp only [Except.map, Delivery.map, Prod.mk.injEq, Broker.mk.injEq, true_and, and_true]
      apply Std.ExtTreeMap.ext_getElem?
      intro k
      simp only [Std.ExtTreeMap.getElem?_insert, Std.ExtTreeMap.getElem?_map]
      split <;> rfl
  · simp only [hlast, if_false, Except.map]

theorem map_deliver :
    (b.map f).deliver now queue
      = ((b.deliver now queue).1.map (Option.map (Delivery.map f)),
          (b.deliver now queue).2.map f) := by
  unfold deliver
  rw [map_pending, map_takeVisible]
  cases takeVisible now (b.pending queue) with
  | none => rfl
  | some r =>
    obtain ⟨m, rest⟩ := r
    simp only [Option.map_some, map_setPending, map_handOut]
    cases ((b.setPending queue rest).handOut now queue m).1 <;> rfl

theorem map_ack (tag : Nat) :
    (b.map f).ack tag = ((b.ack tag).1, (b.ack tag).2.map f) := by
  unfold ack
  rw [map_inFlight]
  cases b.inFlight[tag]? with
  | none => rfl
  | some fl => simp [map_land]

theorem map_bury (m : α) : (b.map f).bury (f m) = (b.bury m).map f := by
  simp [bury, map]

theorem map_putBack (m : α) (requeueAfter : Option Duration) :
    (b.map f).putBack now queue (f m) requeueAfter
      = (b.putBack now queue m requeueAfter).map (map f) := by
  cases requeueAfter with
  | none => simp only [putBack, map_bury]; rfl
  | some delay => exact map_publish m delay

variable [CountsFailures α] [CountsFailures β]

theorem map_nack (tag : Nat) (requeueAfter : Option Duration)
    (hf : ∀ m : α, CountsFailures.failedOnce (f m) = (CountsFailures.failedOnce m).map f) :
    (b.map f).nack now tag requeueAfter
      = ((b.nack now tag requeueAfter).1, (b.nack now tag requeueAfter).2.map f) := by
  unfold nack
  rw [map_inFlight]
  cases b.inFlight[tag]? with
  | none => rfl
  | some fl =>
    simp only [Option.map_some, Flight.map, hf, map_land]
    cases CountsFailures.failedOnce fl.message with
    | error _ => rfl
    | ok m =>
      simp only [Except.map, Bind.bind, Except.bind, map_putBack]
      cases (b.land tag).putBack now fl.queue m requeueAfter <;> rfl

end Broker

end Map

/-! ### Runs -/

namespace Broker

variable {α : Type} [CountsFailures α]

/-- A call that returned, at some time, on a broker, and the broker after it. -/
inductive Does (b : Broker α) (now : Moment) : BrokerAct α → Broker α → Prop
  | publish {queue m delay b'} (h : b.publish now queue m delay = .ok b') :
      Does b now (.published queue m delay) b'
  | receive {queue d tags b'} (htags : tags.Perm (b.expired now))
      (h : (b.requeueAll now tags).deliver now queue = (.ok d, b')) :
      Does b now (.received queue d) b'
  | ack {tag result b'} (h : b.ack tag = (result, b')) : Does b now (.acked tag result) b'
  | nack {tag requeueAfter result b'}
      (h : b.nack now tag requeueAfter = (.ok result, b')) :
      Does b now (.nacked tag requeueAfter result) b'
  | requeueExpired {tags} (htags : tags.Perm (b.expired now)) :
      Does b now (.requeued tags.length) (b.requeueAll now tags)

/-- The calls that a broker went through from its start, the latest first, lead to this
    broker. -/
inductive Runs (visibility : Duration) : List (BrokerAct α) → Broker α → Prop
  | start : Runs visibility [] { visibility }
  | call {past b now act b'} (h : Runs visibility past b) (hdoes : b.Does now act b') :
      Runs visibility (act :: past) b'

/-- Make a call; gives back what it comes to, unless it overflows. -/
def perform (b : Broker α) (now : Moment) : BrokerCall α → Checked (BrokerAct α × Broker α)
  | .publish queue m delay =>
    (b.publish now queue m delay).map fun b' => (.published queue m delay, b')
  | .receive queue =>
    let (result, b') := b.receive now queue
    result.map fun d => (.received queue d, b')
  | .ack tag => .ok (.acked tag (b.ack tag).1, (b.ack tag).2)
  | .nack tag requeueAfter =>
    let (result, b') := b.nack now tag requeueAfter
    result.map fun r => (.nacked tag requeueAfter r, b')
  | .requeueExpired => .ok (.requeued (b.requeueExpired now).1, (b.requeueExpired now).2)

/-- What the broker does itself is among the calls that returned. -/
theorem does_of_perform {b b' : Broker α} {now : Moment} {call : BrokerCall α}
    {act : BrokerAct α} (h : b.perform now call = .ok (act, b')) : b.Does now act b' := by
  cases call with
  | publish queue m delay =>
    simp only [perform] at h
    cases hpublish : b.publish now queue m delay with
    | error _ => rw [hpublish] at h; cases h
    | ok after =>
      rw [hpublish] at h
      cases h
      exact .publish hpublish
  | receive queue =>
    simp only [perform] at h
    cases hreceive : b.receive now queue with
    | mk result after =>
      rw [hreceive] at h
      cases result with
      | error _ => cases h
      | ok d =>
        cases h
        -- The order of the tags is one of those in which late deliveries may be put back.
        exact .receive (List.Perm.refl _) hreceive
  | ack tag =>
    cases h
    exact .ack rfl
  | nack tag requeueAfter =>
    simp only [perform] at h
    cases hnack : b.nack now tag requeueAfter with
    | mk result after =>
      rw [hnack] at h
      cases result with
      | error _ => cases h
      | ok r =>
        cases h
        exact .nack hnack
  | requeueExpired =>
    cases h
    exact .requeueExpired (List.Perm.refl _)

/-- Make calls one after another at these times; gives back the history that they extend. -/
def play (b : Broker α) (past : List (BrokerAct α)) :
    List (Moment × BrokerCall α) → Checked (List (BrokerAct α) × Broker α)
  | [] => .ok (past, b)
  | (now, call) :: calls =>
    match b.perform now call with
    | .error e => .error e
    | .ok (act, b') => b'.play (act :: past) calls

theorem Runs.play {visibility : Duration} {past past' : List (BrokerAct α)} {b b' : Broker α}
    {calls : List (Moment × BrokerCall α)} (h : Runs visibility past b)
    (hplay : b.play past calls = .ok (past', b')) : Runs visibility past' b' := by
  fun_induction Broker.play b past calls with
  | case1 =>
    cases hplay
    exact h
  | case2 => cases hplay
  | case3 b past now call calls act after hperform ih =>
    exact ih (h.call (does_of_perform hperform)) hplay

/-! ### What a call that returns has done -/

section Inversion

variable {α : Type} {b b' : Broker α} {now : Moment} {queue : String} {tag : Nat}

theorem publish_ok {m : α} {delay : Duration} (h : b.publish now queue m delay = .ok b') :
    ∃ visibleAt, b' = b.setPending queue (b.pending queue ++ [⟨m, visibleAt⟩]) := by
  unfold publish at h
  cases hafter : now.after delay with
  | error _ => rw [hafter] at h; cases h
  | ok visibleAt =>
    rw [hafter] at h
    cases h
    exact ⟨visibleAt, rfl⟩

theorem requeue_eq {f : Flight α} (hf : b.inFlight[tag]? = some f) :
    b.requeue now tag = (b.land tag).setPending f.queue
      (⟨f.message, now⟩ :: (b.land tag).pending f.queue) := by
  simp only [requeue, hf]
  rfl

@[simp] theorem inFlight_setPending (ps : List (Pending α)) :
    (b.setPending queue ps).inFlight = b.inFlight := rfl

@[simp] theorem deadLetters_setPending (ps : List (Pending α)) :
    (b.setPending queue ps).deadLetters = b.deadLetters := rfl

@[simp] theorem pending_land : (b.land tag).pending queue = b.pending queue := rfl

theorem inFlight_land (other : Nat) :
    (b.land tag).inFlight[other]? = if tag = other then none else b.inFlight[other]? := by
  simp [land, Std.ExtTreeMap.getElem?_erase]

/-- The message that is taken is one of those that waited; the others still wait. -/
theorem takeVisible_perm {ps rest : List (Pending α)} {m : α}
    (h : takeVisible now ps = some (m, rest)) :
    (ps.map (·.message)).Perm (m :: rest.map (·.message)) := by
  fun_induction takeVisible now ps generalizing rest with
  | case1 => cases h
  | case2 p ps hvisible =>
    cases h
    exact List.Perm.refl _
  | case3 p ps hvisible ih =>
    obtain ⟨r, hr, heq⟩ := Option.map_eq_some_iff.mp h
    cases heq
    exact ((ih hr).cons p.message).trans (List.Perm.swap _ _ _)

/-- The broker with a message in flight under the next tag. -/
def launch (b : Broker α) (queue : String) (m : α) (deadline : Moment) : Broker α :=
  { b with
    lastTag := b.lastTag + 1
    inFlight := b.inFlight.insert (b.lastTag + 1) ⟨queue, m, deadline⟩ }

theorem inFlight_launch {m : α} {rest : List (Pending α)} {deadline : Moment} (other : Nat) :
    ((b.setPending queue rest).launch queue m deadline).inFlight[other]?
      = if b.lastTag + 1 = other then some ⟨queue, m, deadline⟩ else b.inFlight[other]? := by
  simp [launch, setPending, Std.ExtTreeMap.getElem?_insert]

theorem handOut_ok {m : α} {d : Delivery α} (h : b.handOut now queue m = (.ok d, b')) :
    d = ⟨b.lastTag + 1, queue, m⟩ ∧ ∃ deadline, b' = b.launch queue m deadline := by
  unfold handOut nextTag at h
  by_cases hlast : b.lastTag < Text.maxWord64
  · simp only [hlast, if_true] at h
    cases hafter : now.after b.visibility with
    | error _ => rw [hafter] at h; cases h
    | ok deadline =>
      rw [hafter] at h
      cases h
      exact ⟨rfl, deadline, rfl⟩
  · simp only [hlast, if_false] at h
    cases h

/-- Either there is nothing to hand out, or the first message that may be handed out is in
    flight. -/
theorem deliver_ok {d : Option (Delivery α)} (h : b.deliver now queue = (.ok d, b')) :
    (d = none ∧ b' = b) ∨ ∃ m rest deadline, takeVisible now (b.pending queue) = some (m, rest) ∧
      d = some ⟨b.lastTag + 1, queue, m⟩ ∧
      b' = (b.setPending queue rest).launch queue m deadline := by
  unfold deliver at h
  cases htake : takeVisible now (b.pending queue) with
  | none =>
    rw [htake] at h
    cases h
    exact .inl ⟨rfl, rfl⟩
  | some r =>
    obtain ⟨m, rest⟩ := r
    rw [htake] at h
    cases hout : (b.setPending queue rest).handOut now queue m with
    | mk result after =>
      cases result with
      | error _ => simp only [hout] at h; cases h
      | ok d' =>
        simp only [hout] at h
        cases h
        obtain ⟨rfl, deadline, rfl⟩ := handOut_ok hout
        exact .inr ⟨m, rest, deadline, rfl, rfl, rfl⟩

/-- The message of a delivery that is handed back counts one more failure and is put back. -/
theorem nack_ok_of_inFlight [CountsFailures α] {requeueAfter : Option Duration}
    {result : Except UnknownDelivery Unit} {f : Flight α} (hf : b.inFlight[tag]? = some f)
    (h : b.nack now tag requeueAfter = (.ok result, b')) :
    ∃ m, CountsFailures.failedOnce f.message = .ok m ∧ result = .ok () ∧
      (b.land tag).putBack now f.queue m requeueAfter = .ok b' := by
  simp only [nack, hf, Bind.bind] at h
  cases hfailed : CountsFailures.failedOnce f.message with
  | error _ => rw [hfailed] at h; cases h
  | ok m =>
    simp only [hfailed, Except.bind] at h
    cases hput : (b.land tag).putBack now f.queue m requeueAfter with
    | error _ => rw [hput] at h; cases h
    | ok after =>
      rw [hput] at h
      cases h
      exact ⟨m, rfl, rfl, hput⟩

/-- Either the delivery is unknown, or it is handed back. -/
theorem nack_ok [CountsFailures α] {requeueAfter : Option Duration}
    {result : Except UnknownDelivery Unit} (h : b.nack now tag requeueAfter = (.ok result, b')) :
    (result = .error ⟨tag⟩ ∧ b' = b) ∨ ∃ f m, b.inFlight[tag]? = some f ∧
      CountsFailures.failedOnce f.message = .ok m ∧ result = .ok () ∧
      (b.land tag).putBack now f.queue m requeueAfter = .ok b' := by
  cases hf : b.inFlight[tag]? with
  | none =>
    simp only [nack, hf] at h
    cases h
    exact .inl ⟨rfl, rfl⟩
  | some f =>
    obtain ⟨m, hm⟩ := nack_ok_of_inFlight hf h
    exact .inr ⟨f, m, rfl, hm⟩

/-! ### Visibility and tags -/

theorem putBack_frame {m : α} {requeueAfter : Option Duration}
    (h : b.putBack now queue m requeueAfter = .ok b') :
    b'.inFlight = b.inFlight ∧ b'.visibility = b.visibility ∧ b'.lastTag = b.lastTag := by
  cases requeueAfter with
  | some delay =>
    obtain ⟨visibleAt, rfl⟩ := publish_ok h
    exact ⟨rfl, rfl, rfl⟩
  | none =>
    cases h
    exact ⟨rfl, rfl, rfl⟩

theorem requeueAll_frame (b : Broker α) (now : Moment) (tags : List Nat) :
    (b.requeueAll now tags).visibility = b.visibility ∧
      (b.requeueAll now tags).lastTag = b.lastTag := by
  induction tags with
  | nil => exact ⟨rfl, rfl⟩
  | cons tag tags ih =>
    simp only [requeueAll, List.foldr_cons] at *
    generalize tags.foldr (fun tag b => b.requeue now tag) b = c at ih
    cases hf : c.inFlight[tag]? with
    | none => simpa only [requeue, hf] using ih
    | some f => rw [requeue_eq hf]; exact ih

/-- No call changes the visibility, and one call uses at most one tag. -/
theorem Does.frame [CountsFailures α] {act : BrokerAct α} (h : b.Does now act b') :
    b'.visibility = b.visibility ∧ b'.lastTag ≤ b.lastTag + 1 := by
  cases h with
  | publish h =>
    obtain ⟨visibleAt, rfl⟩ := publish_ok h
    exact ⟨rfl, Nat.le_succ _⟩
  | @receive _ _ tags _ _ h =>
    obtain ⟨hvisibility, hlast⟩ := requeueAll_frame b now tags
    obtain ⟨-, rfl⟩ | ⟨m, rest, deadline, -, -, rfl⟩ := deliver_ok h
    · exact ⟨hvisibility, hlast ▸ Nat.le_succ _⟩
    · exact ⟨hvisibility, Nat.succ_le_succ (Nat.le_of_eq hlast)⟩
  | @ack tag _ _ h =>
    unfold Broker.ack at h
    cases hf : b.inFlight[tag]? <;> rw [hf] at h <;> cases h <;> exact ⟨rfl, Nat.le_succ _⟩
  | nack h =>
    obtain ⟨-, rfl⟩ | ⟨f, m, -, -, -, hput⟩ := nack_ok h
    · exact ⟨rfl, Nat.le_succ _⟩
    · obtain ⟨-, hvisibility, hlast⟩ := putBack_frame hput
      exact ⟨hvisibility, hlast ▸ Nat.le_succ _⟩
  | @requeueExpired tags _ =>
    obtain ⟨hvisibility, hlast⟩ := requeueAll_frame b now tags
    exact ⟨hvisibility, hlast ▸ Nat.le_succ _⟩

/-- A run uses at most one tag a call. -/
theorem Runs.frame [CountsFailures α] {visibility : Duration} {past : List (BrokerAct α)}
    (h : Runs visibility past b) : b.visibility = visibility ∧ b.lastTag ≤ past.length := by
  induction h with
  | start => exact ⟨rfl, Nat.le_refl _⟩
  | call _ hdoes ih =>
    obtain ⟨hvisibility, hlast⟩ := hdoes.frame
    rw [List.length_cons]
    exact ⟨hvisibility.trans ih.1, by omega⟩

/-! ### Calls that return -/

theorem publish_returns (b : Broker α) (queue : String) (m : α) {delay : Duration}
    (h : now + delay.nanos < Moment.bound) :
    ∃ b', b.publish now queue m delay = .ok b' := by
  simp only [publish, Moment.after, h, if_true]
  exact ⟨_, rfl⟩

theorem deliver_returns (hvisibility : now + b.visibility.nanos < Moment.bound)
    (hlast : b.lastTag < Text.maxWord64) :
    ∃ d b', b.deliver now queue = (.ok d, b') := by
  unfold deliver
  cases takeVisible now (b.pending queue) with
  | none => exact ⟨_, _, rfl⟩
  | some r =>
    have hnext : (b.setPending queue r.2).nextTag = .ok (b.lastTag + 1) := if_pos hlast
    have hafter : now.after (b.setPending queue r.2).visibility
        = .ok (now + b.visibility.nanos) := if_pos hvisibility
    simp only [handOut, hnext, hafter]
    exact ⟨_, _, rfl⟩

theorem nack_returns [CountsFailures α] {requeueAfter : Option Duration}
    (hdelay : ∀ delay ∈ requeueAfter, now + delay.nanos < Moment.bound)
    (hfailures : ∀ f ∈ b.inFlight[tag]?, ∃ m, CountsFailures.failedOnce f.message = .ok m) :
    ∃ result b', b.nack now tag requeueAfter = (.ok result, b') := by
  unfold nack
  cases hf : b.inFlight[tag]? with
  | none => exact ⟨_, _, rfl⟩
  | some f =>
    obtain ⟨m, hm⟩ := hfailures f hf
    have hput : ∃ b', (b.land tag).putBack now f.queue m requeueAfter = .ok b' := by
      cases requeueAfter with
      | none => exact ⟨_, rfl⟩
      | some delay => exact publish_returns _ _ m (hdelay delay rfl)
    obtain ⟨b', hb'⟩ := hput
    simp only [hm, Bind.bind, Except.bind, hb']
    exact ⟨_, _, rfl⟩

/-- A call after `past` leaves every number in its range: the deadline that it sets, the tag
    that it uses and the failures that it counts. -/
def Fits (visibility : Duration) (past : List (BrokerAct TaskMessage)) (b : Broker TaskMessage)
    (now : Moment) : BrokerCall TaskMessage → Prop
  | .publish _ _ delay => now + delay.nanos < Moment.bound
  | .receive _ => now + visibility.nanos < Moment.bound ∧ past.length < Text.maxWord64
  | .nack tag requeueAfter =>
    (∀ delay ∈ requeueAfter, now + delay.nanos < Moment.bound) ∧
      ∀ f ∈ b.inFlight[tag]?, f.message.failures < Text.maxWord32
  | _ => True

/-- A call that leaves every number in its range returns. -/
theorem Runs.perform_returns {visibility : Duration} {past : List (BrokerAct TaskMessage)}
    {b : Broker TaskMessage} {call : BrokerCall TaskMessage} (h : Runs visibility past b)
    (hfits : Fits visibility past b now call) :
    ∃ act b', b.perform now call = .ok (act, b') := by
  cases call with
  | publish queue m delay =>
    obtain ⟨b', hb'⟩ := publish_returns b queue m hfits
    exact ⟨.published queue m delay, b', by simp only [perform, hb', Except.map]⟩
  | receive queue =>
    obtain ⟨rfl, hlast⟩ := h.frame
    obtain ⟨hvisibility, htags⟩ := requeueAll_frame b now (b.expired now)
    obtain ⟨d, b', hb'⟩ : ∃ d b', b.receive now queue = (.ok d, b') := by
      refine deliver_returns ?_ ?_
      · exact hvisibility.symm ▸ hfits.1
      · exact htags.symm ▸ Nat.lt_of_le_of_lt hlast hfits.2
    exact ⟨.received queue d, b', by simp only [perform, hb', Except.map]⟩
  | ack tag => exact ⟨_, _, rfl⟩
  | nack tag requeueAfter =>
    have hfailures : ∀ f ∈ b.inFlight[tag]?,
        ∃ m, CountsFailures.failedOnce f.message = .ok m := by
      intro f hf
      exact ⟨_, if_pos (hfits.2 f hf)⟩
    obtain ⟨result, b', hb'⟩ := nack_returns hfits.1 hfailures
    exact ⟨.nacked tag requeueAfter result, b', by simp only [perform, hb', Except.map]⟩
  | requeueExpired => exact ⟨_, _, rfl⟩

end Inversion

end Broker

/-! ### Tickets -/

theorem Ticket.failedOnce_message (t : Ticket) :
    CountsFailures.failedOnce t.message = (CountsFailures.failedOnce t).map Ticket.message := by
  simp only [CountsFailures.failedOnce, Except.map]
  cases t.message.failedOnce <;> rfl

/-- What a call published, and on which queue. -/
def BrokerAct.published? {α : Type} : BrokerAct α → Option (String × α)
  | .published queue m _ => some (queue, m)
  | _ => none

namespace Broker

/-- What a history published and where, the latest first. -/
def publications {α : Type} (past : List (BrokerAct α)) : List (String × α) :=
  past.filterMap BrokerAct.published?

theorem publications_cons {α : Type} (act : BrokerAct α) (past : List (BrokerAct α)) :
    publications (act :: past) = act.published?.toList ++ publications past := by
  unfold publications
  cases hact : act.published? <;> simp [hact]

/-- The numbers of the tickets that a history published, the latest first. -/
def numbers (past : List (BrokerAct Ticket)) : List Nat :=
  (publications past).map fun p => p.2.number

theorem numbers_cons (act : BrokerAct Ticket) (past : List (BrokerAct Ticket)) :
    numbers (act :: past) = act.published?.toList.map (fun p => p.2.number) ++ numbers past := by
  rw [numbers, publications_cons, List.map_append, numbers]

/-- A call on messages is a call on tickets without their numbers, and a message that it
    publishes can be given any number. -/
theorem Does.ticketed {B : Broker Ticket} {b' : Broker TaskMessage} {now : Moment}
    {act : BrokerAct TaskMessage} (h : (B.map Ticket.message).Does now act b') (n : Nat) :
    ∃ Act B', B.Does now Act B' ∧ Act.map Ticket.message = act ∧ B'.map Ticket.message = b' ∧
      ∀ p ∈ Act.published?, p.2.number = n := by
  cases h with
  | @publish queue m delay _ h =>
    have hmap : (B.map Ticket.message).publish now queue m delay
        = (B.publish now queue ⟨n, m⟩ delay).map (map Ticket.message) :=
      map_publish (⟨n, m⟩ : Ticket) delay
    rw [hmap] at h
    cases hpublish : B.publish now queue ⟨n, m⟩ delay with
    | error _ => rw [hpublish] at h; cases h
    | ok B' =>
      rw [hpublish] at h
      cases h
      exact ⟨_, B', .publish hpublish, rfl, rfl, by rintro p ⟨⟩; rfl⟩
  | @receive queue d tags _ htags h =>
    rw [map_expired] at htags
    rw [map_requeueAll, map_deliver] at h
    obtain ⟨hd, rfl⟩ := Prod.mk.inj h
    cases hdeliver : (B.requeueAll now tags).deliver now queue with
    | mk result B' =>
      rw [hdeliver] at hd
      cases result with
      | error _ => cases hd
      | ok D =>
        cases hd
        exact ⟨_, B', .receive htags hdeliver, rfl, rfl, by rintro p ⟨⟩⟩
  | ack h =>
    rw [map_ack] at h
    obtain ⟨rfl, rfl⟩ := Prod.mk.inj h
    exact ⟨_, _, .ack rfl, rfl, rfl, by rintro p ⟨⟩⟩
  | @nack tag requeueAfter result _ h =>
    rw [map_nack tag requeueAfter Ticket.failedOnce_message] at h
    obtain ⟨hresult, rfl⟩ := Prod.mk.inj h
    exact ⟨.nacked tag requeueAfter result, _, .nack (Prod.ext hresult rfl), rfl, rfl,
      by rintro p ⟨⟩⟩
  | @requeueExpired tags htags =>
    rw [map_expired] at htags
    exact ⟨_, _, .requeueExpired htags, rfl, (map_requeueAll tags).symm, by rintro p ⟨⟩⟩

/-- A call that publishes under a number that is greater than all before keeps the numbers
    apart. -/
theorem numbers_next {past : List (BrokerAct Ticket)} {act : BrokerAct Ticket} {n : Nat}
    (hnodup : (numbers past).Nodup) (hlt : ∀ k ∈ numbers past, k < n)
    (hnumber : ∀ p ∈ act.published?, p.2.number = n) :
    (numbers (act :: past)).Nodup ∧ ∀ k ∈ numbers (act :: past), k < n + 1 := by
  rw [numbers_cons]
  cases hact : act.published? with
  | none => exact ⟨hnodup, fun k hk => Nat.lt_succ_of_lt (hlt k hk)⟩
  | some p =>
    have hp : p.2.number = n := hnumber p hact
    constructor
    · refine List.nodup_cons.mpr ⟨fun hmem => ?_, hnodup⟩
      exact absurd (hlt _ hmem) (hp ▸ Nat.lt_irrefl _)
    · intro k hk
      rcases List.mem_cons.mp hk with rfl | hold
      · exact hp ▸ Nat.lt_succ_self _
      · exact Nat.lt_succ_of_lt (hlt k hold)

/-- Every run over messages is a run over tickets with the numbers taken away, in which no
    two messages that were published have the same number. -/
theorem Runs.ticketed {visibility : Duration} {past : List (BrokerAct TaskMessage)}
    {b : Broker TaskMessage} (h : Runs visibility past b) :
    ∃ Past B, Runs visibility Past B ∧ (numbers Past).Nodup ∧
      Past.map (BrokerAct.map Ticket.message) = past ∧ B.map Ticket.message = b := by
  -- The length of the history is a number that the history has not given yet.
  suffices hlt : ∃ Past B, Runs visibility Past B ∧
      ((numbers Past).Nodup ∧ ∀ n ∈ numbers Past, n < Past.length) ∧
      Past.map (BrokerAct.map Ticket.message) = past ∧ B.map Ticket.message = b by
    obtain ⟨Past, B, hruns, ⟨hnodup, -⟩, hpast, hb⟩ := hlt
    exact ⟨Past, B, hruns, hnodup, hpast, hb⟩
  induction h with
  | start => exact ⟨[], { visibility }, .start, ⟨List.nodup_nil, nofun⟩, rfl, map_start visibility⟩
  | call h hdoes ih =>
    obtain ⟨Past, B, hruns, ⟨hnodup, hlt⟩, rfl, rfl⟩ := ih
    obtain ⟨Act, B', hDoes, rfl, rfl, hnumber⟩ := hdoes.ticketed Past.length
    exact ⟨Act :: Past, B', hruns.call hDoes, numbers_next hnodup hlt hnumber, rfl, rfl⟩

end Broker

end ExecutionControl
