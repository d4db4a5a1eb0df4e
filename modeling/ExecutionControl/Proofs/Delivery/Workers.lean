import ExecutionControl.Delivery.Worker
import ExecutionControl.Proofs.Delivery.Conservation
import ExecutionControl.Proofs.Delivery.Settlement
import ExecutionControl.Proofs.Routing.Backoff

/-! # Workers on a broker

    Any number of workers take messages from the queues of one broker and work on them at the
    same time (`Crew`). A turn of a worker has two halves, the call that hands a message out and
    the settling of its delivery, and whatever else happens may happen between them. No
    delivery that is worked on is found late.

    The invariant is `Crew.Manned`: whatever is worked on is in flight. A worker therefore
    never comes too late to settle its delivery, and what it settles is what it was handed.
-/

namespace ExecutionControl

/-! ### What workers do -/

/-- What happens on a broker with workers. -/
inductive WorkAct (α : Type) where
  /-- A call that publishes, hands out or puts back late deliveries. The delivery that it hands
      out is worked on from then on. -/
  | called (act : BrokerAct α)
  /-- The work on a delivery is over, and a call has settled it, unless an overflow came
      first. -/
  | ended (d : Delivery α) (failure : Option String)
      (result : Checked (Except UnknownDelivery Settlement)) (call : Option (BrokerAct α))

/-- The call of the broker that was made. -/
def WorkAct.call? {α : Type} : WorkAct α → Option (BrokerAct α)
  | .called act => some act
  | .ended _ _ _ call => call

/-- The delivery that a worker begins to work on. -/
def WorkAct.begun? {α : Type} : WorkAct α → Option (Delivery α)
  | .called (.received _ d) => d
  | _ => none

/-- The calls of the broker in a history. -/
def calls {α : Type} (past : List (WorkAct α)) : List (BrokerAct α) := past.filterMap WorkAct.call?

/-- A broker and the deliveries that are worked on. -/
structure Crew (α : Type) where
  broker : Broker α
  running : List (Delivery α)

/-- When a message is tried again whose attempt of this number has failed, if it is. -/
def RetryPolicy.after (p : RetryPolicy) (attempt : Nat) (draw : Draw) :
    Checked (Option Duration) :=
  if p.shouldRetry attempt then (p.jitteredDelay attempt draw).map some else .ok none

/-- How an attempt that failed is settled. -/
def Settlement.ofFailure (messageId : String) (attempt : Nat) : Option Duration → Settlement
  | some delay => .retried messageId attempt delay
  | none => .deadLettered messageId

namespace Crew

variable {α : Type}

/-- No delivery that is worked on is late. -/
def InTime (c : Crew α) (now : Moment) : Prop := ∀ d ∈ c.running, d.tag ∉ c.broker.expired now

/-- The crew once a delivery is settled, which left this broker. -/
def settled (c : Crew α) (d : Delivery α) (b : Broker α) : Crew α :=
  ⟨b, c.running.filter fun d' => d'.tag ≠ d.tag⟩

/-- What can happen next. The broker holds messages in any form that `f` reads. -/
inductive Steps [CountsFailures α] (r : Router) (f : α → TaskMessage) (c : Crew α)
    (now : Moment) : WorkAct α → Crew α → Prop
  | publish {queue m delay b'} (h : c.broker.Does now (.published queue m delay) b') :
      Steps r f c now (.called (.published queue m delay)) ⟨b', c.running⟩
  | receive {queue d b'} (htime : c.InTime now) (h : c.broker.Does now (.received queue d) b') :
      Steps r f c now (.called (.received queue d)) ⟨b', d.toList ++ c.running⟩
  | requeue {n b'} (htime : c.InTime now) (h : c.broker.Does now (.requeued n) b') :
      Steps r f c now (.called (.requeued n)) ⟨b', c.running⟩
  | succeed {d result b'} (hd : d ∈ c.running) (h : c.broker.Does now (.acked d.tag result) b') :
      Steps r f c now
        (.ended d none (.ok (result.map fun _ => .acked (f d.message).id))
          (some (.acked d.tag result)))
        (c.settled d b')
  | fail {d e failed draw requeueAfter result b'} (hd : d ∈ c.running)
      (hfailed : (f d.message).failedOnce = .ok failed)
      (hafter : (r.retryPolicyFor d.queue).after failed.failures draw = .ok requeueAfter)
      (h : c.broker.Does now (.nacked d.tag requeueAfter result) b') :
      Steps r f c now
        (.ended d (some e)
          (.ok (result.map fun _ => .ofFailure (f d.message).id failed.failures requeueAfter))
          (some (.nacked d.tag requeueAfter result)))
        (c.settled d b')
  | overflow {d e o} (hd : d ∈ c.running) (hfailed : (f d.message).failedOnce = .error o) :
      Steps r f c now (.ended d (some e) (.error o) none) (c.settled d c.broker)

/-- What has happened since a broker and its workers started, the latest first. -/
inductive Runs [CountsFailures α] (r : Router) (f : α → TaskMessage) (visibility : Duration) :
    List (WorkAct α) → Crew α → Prop
  | start : Runs r f visibility [] ⟨{ visibility }, []⟩
  | step {past c now act c'} (h : Runs r f visibility past c) (hstep : c.Steps r f now act c') :
      Runs r f visibility (act :: past) c'

/-- Whatever is worked on is in flight, from the queue that it was handed out from. -/
def Manned (c : Crew α) : Prop :=
  ∀ d ∈ c.running, ∃ deadline, c.broker.inFlight[d.tag]? = some ⟨d.queue, d.message, deadline⟩

variable {r : Router} {f : α → TaskMessage} {visibility : Duration} {past : List (WorkAct α)}
  {c c' : Crew α} {now : Moment} {act : WorkAct α} {d : Delivery α} {b' : Broker α}

/-! ### Whatever is worked on is in flight -/

theorem Manned.of_inFlight (h : c.Manned) (hin : b'.inFlight = c.broker.inFlight) :
    Manned ⟨b', c.running⟩ := by
  intro d hd
  obtain ⟨deadline, hf⟩ := h d hd
  exact ⟨deadline, (congrArg (·[d.tag]?) hin).trans hf⟩

/-- What is not late stays in flight. -/
theorem Manned.requeueAll (h : c.Manned) (htime : c.InTime now) {tags : List Nat}
    (htags : tags.Perm (c.broker.expired now)) :
    Manned ⟨c.broker.requeueAll now tags, c.running⟩ := by
  intro d hd
  obtain ⟨deadline, hf⟩ := h d hd
  have hlate : d.tag ∉ tags := fun hmem => htime d hd (htags.mem_iff.mp hmem)
  refine ⟨deadline, ?_⟩
  rw [Broker.inFlight_requeueAll, if_neg hlate]
  exact hf

/-- What is handed out is in flight, under a tag of its own. -/
theorem Manned.launch {queue : String} {m : α} {rest : List (Pending α)} {deadline : Moment}
    (h : c.Manned) (hlast : ∀ tag ∈ c.broker.inFlight, tag ≤ c.broker.lastTag) :
    Manned ⟨(c.broker.setPending queue rest).launch queue m deadline,
      ⟨c.broker.lastTag + 1, queue, m⟩ :: c.running⟩ := by
  intro d hd
  rcases List.mem_cons.mp hd with rfl | hd
  · exact ⟨deadline, by rw [Broker.inFlight_launch, if_pos rfl]⟩
  · obtain ⟨deadline', hf⟩ := h d hd
    have hle : d.tag ≤ c.broker.lastTag := hlast _ (Broker.mem_inFlight.mpr ⟨_, hf⟩)
    refine ⟨deadline', ?_⟩
    rw [Broker.inFlight_launch, if_neg (by omega)]
    exact hf

/-- What else is worked on is in flight under other tags. -/
theorem Manned.land (h : c.Manned) (hin : b'.inFlight = (c.broker.land d.tag).inFlight) :
    (c.settled d b').Manned := by
  intro d' hd'
  obtain ⟨hmem, hne⟩ := List.mem_filter.mp hd'
  obtain ⟨deadline, hf⟩ := h d' hmem
  refine ⟨deadline, ?_⟩
  show b'.inFlight[d'.tag]? = _
  rw [hin, Broker.inFlight_land, if_neg fun heq => of_decide_eq_true hne heq.symm]
  exact hf

/-- A worker that acknowledges its delivery is in time. -/
theorem Manned.ack_eq (h : c.Manned) (hd : d ∈ c.running) :
    c.broker.ack d.tag = (.ok (), c.broker.land d.tag) := by
  obtain ⟨deadline, hf⟩ := h d hd
  simp only [Broker.ack, hf]

variable [CountsFailures α]

/-- A worker that hands its delivery back is in time. -/
theorem Manned.nack_ok {requeueAfter : Option Duration} {result : Except UnknownDelivery Unit}
    (h : c.Manned) (hd : d ∈ c.running)
    (hnack : c.broker.nack now d.tag requeueAfter = (.ok result, b')) :
    ∃ m, CountsFailures.failedOnce d.message = .ok m ∧ result = .ok () ∧
      (c.broker.land d.tag).putBack now d.queue m requeueAfter = .ok b' := by
  obtain ⟨deadline, hf⟩ := h d hd
  exact Broker.nack_ok_of_inFlight hf hnack

theorem Manned.steps (h : c.Manned) (hlast : ∀ tag ∈ c.broker.inFlight, tag ≤ c.broker.lastTag)
    (hstep : c.Steps r f now act c') : c'.Manned := by
  cases hstep with
  | publish hdoes =>
    cases hdoes with
    | publish hpublish =>
      obtain ⟨visibleAt, rfl⟩ := Broker.publish_ok hpublish
      exact h.of_inFlight rfl
  | receive htime hdoes =>
    cases hdoes with
    | @receive _ _ tags _ htags hdeliver =>
      have hput := h.requeueAll htime htags
      obtain ⟨rfl, rfl⟩ | ⟨m, rest, deadline, -, rfl, rfl⟩ := Broker.deliver_ok hdeliver
      · exact hput
      · refine hput.launch fun tag htag => ?_
        -- Putting late deliveries back neither launches any nor uses a tag.
        obtain ⟨fl, hfl⟩ := Broker.mem_inFlight.mp htag
        rw [Broker.inFlight_requeueAll] at hfl
        split at hfl
        · cases hfl
        · exact (Broker.requeueAll_frame c.broker now tags).2 ▸
            hlast tag (Broker.mem_inFlight.mpr ⟨fl, hfl⟩)
  | requeue htime hdoes =>
    cases hdoes with
    | requeueExpired htags => exact h.requeueAll htime htags
  | succeed hd hdoes =>
    cases hdoes with
    | ack hack =>
      rw [h.ack_eq hd] at hack
      cases hack
      exact h.land rfl
  | fail hd _ _ hdoes =>
    cases hdoes with
    | nack hnack =>
      obtain ⟨m, -, -, hput⟩ := h.nack_ok hd hnack
      exact h.land (Broker.putBack_frame hput).1
  | overflow hd _ => exact fun d' hd' => h d' (List.mem_filter.mp hd').1

/-- The broker does nothing but the calls of the history. -/
theorem Runs.broker (h : Runs r f visibility past c) :
    Broker.Runs visibility (calls past) c.broker := by
  induction h with
  | start => exact .start
  | step _ hstep ih =>
    cases hstep with
    | publish h => exact ih.call h
    | receive _ h => exact ih.call h
    | requeue _ h => exact ih.call h
    | succeed _ h => exact ih.call h
    | fail _ _ _ h => exact ih.call h
    | overflow => exact ih

theorem Runs.manned (h : Runs r f visibility past c) : c.Manned := by
  induction h with
  | start => exact fun d hd => by cases hd
  | step hruns hstep ih => exact ih.steps (fun _ htag => hruns.broker.le_lastTag htag) hstep

end Crew

/-! ### Turns of a worker -/

/-- No queue waits for long. -/
theorem Router.backoffMax_lt (r : Router) (queue : String) :
    (r.retryPolicyFor queue).backoffMax.secs < 2 ^ 64 - 2 ^ 10 := by
  unfold retryPolicyFor
  cases (QueueClass.all.find? fun c => r.config.queueName c == queue).getD .default <;>
    decide +kernel

/-- An attempt is tried again as long as retries are left, after a delay that the policy
    bounds. -/
theorem Router.after_eq (r : Router) (queue : String) (attempt : Nat) (draw : Draw) :
    (attempt ≤ (r.retryPolicyFor queue).maxRetries ∧
      ∃ delay, (r.retryPolicyFor queue).jitteredDelay attempt draw = .ok delay ∧
        (r.retryPolicyFor queue).after attempt draw = .ok (some delay) ∧
        delay ≤ (r.retryPolicyFor queue).delayFor attempt) ∨
    ((r.retryPolicyFor queue).maxRetries < attempt ∧
      (r.retryPolicyFor queue).after attempt draw = .ok none) := by
  simp only [RetryPolicy.after, RetryPolicy.shouldRetry, decide_eq_true_eq]
  by_cases hretry : attempt ≤ (r.retryPolicyFor queue).maxRetries
  · left
    rw [if_pos hretry]
    obtain ⟨delay, hdelay, hle⟩ | ⟨-, hlong, -⟩ :=
      (r.retryPolicyFor queue).jitteredDelay_cases attempt draw
    · exact ⟨hretry, delay, hdelay, by rw [hdelay]; rfl, hle⟩
    · -- No wait of a class is anywhere near the longest span.
      have hmax : ((r.retryPolicyFor queue).delayFor attempt).secs ≤
          (r.retryPolicyFor queue).backoffMax.secs :=
        Nat.div_le_div_right (RetryPolicy.delayFor_le _ attempt)
      exact absurd (Nat.lt_of_le_of_lt hmax (r.backoffMax_lt queue)) (Nat.not_lt.mpr hlong)
  · right
    rw [if_neg hretry]
    exact ⟨by omega, rfl⟩

namespace Crew

variable {r : Router} {visibility : Duration} {past : List (WorkAct TaskMessage)}
  {c : Crew TaskMessage} {now : Moment} {d : Delivery TaskMessage}

/-- A worker whose work is over settles its delivery, as long as the clock reaches as far as
    the longest delay. -/
theorem Manned.settle (h : c.Manned) (hd : d ∈ c.running)
    (hclock : now + (r.retryPolicyFor d.queue).backoffMax.nanos < Moment.bound)
    (failure : Option String) (draw : Draw) :
    ∃ call, c.Steps r id now
      (.ended d failure (r.settle c.broker now d failure draw).result call)
      (c.settled d (r.settle c.broker now d failure draw).broker) := by
  cases failure with
  | none => exact ⟨_, .succeed hd (.ack rfl)⟩
  | some e =>
    simp only [Router.settle]
    cases hfailed : d.message.failedOnce with
    | error o => exact ⟨none, .overflow hd hfailed⟩
    | ok failed =>
      -- The delivery is in flight with the message that was worked on.
      have hreturns : ∀ requeueAfter : Option Duration,
          (∀ delay ∈ requeueAfter, now + delay.nanos < Moment.bound) →
          ∃ result b', c.broker.nack now d.tag requeueAfter = (.ok result, b') := by
        intro requeueAfter hdelay
        refine Broker.nack_returns hdelay fun fl hfl => ?_
        obtain ⟨deadline, hf⟩ := h d hd
        obtain rfl := Option.some.inj (hf.symm.trans hfl)
        exact ⟨failed, hfailed⟩
      obtain ⟨hretry, delay, hdelay, hafter, hle⟩ | ⟨hlast, hafter⟩ :=
        r.after_eq d.queue failed.failures draw
      · have hmax : delay.nanos ≤ (r.retryPolicyFor d.queue).backoffMax.nanos :=
          Nat.le_trans hle (RetryPolicy.delayFor_le _ _)
        obtain ⟨result, b', hnack⟩ := hreturns (some delay) fun _ hmem => by
          cases hmem
          exact Nat.lt_of_le_of_lt (Nat.add_le_add_left hmax now) hclock
        simp only [RetryPolicy.shouldRetry, hretry, decide_true, if_true, hdelay, hnack]
        exact ⟨_, .fail hd hfailed hafter (.nack hnack)⟩
      · obtain ⟨result, b', hnack⟩ := hreturns none fun _ hmem => by cases hmem
        simp only [RetryPolicy.shouldRetry, Nat.not_le.mpr hlast, decide_false,
          Bool.false_eq_true, if_false, hnack]
        exact ⟨_, .fail hd hfailed hafter (.nack hnack)⟩

/-- What is handed out is on the queue that was asked, under a tag that nobody works under. -/
theorem Runs.receive_eq {queue : String} {b : Broker TaskMessage}
    (h : Runs r id visibility past c)
    (hreceive : c.broker.receive now queue = (.ok (some d), b)) :
    d.queue = queue ∧ ∀ d' ∈ c.running, d'.tag ≠ d.tag := by
  obtain ⟨hnone, -⟩ | ⟨m, rest, deadline, -, hd, -⟩ := Broker.deliver_ok hreceive
  · cases hnone
  obtain rfl := Option.some.inj hd
  refine ⟨rfl, fun d' hd' => ?_⟩
  obtain ⟨deadline', hf⟩ := h.manned d' hd'
  have hle : d'.tag ≤ c.broker.lastTag :=
    h.broker.le_lastTag (Broker.mem_inFlight.mpr ⟨_, hf⟩)
  have hlast : (c.broker.requeueAll now (c.broker.expired now)).lastTag = c.broker.lastTag :=
    (Broker.requeueAll_frame c.broker now _).2
  show d'.tag ≠ (c.broker.requeueAll now (c.broker.expired now)).lastTag + 1
  omega

/-- A turn of a worker that is handed a message is the call that hands it out and the end of
    the work on it. -/
theorem Runs.turn {queue : String} {b : Broker TaskMessage} (h : Runs r id visibility past c)
    (htime : c.InTime now) (hreceive : c.broker.receive now queue = (.ok (some d), b))
    (work : TaskMessage → Attempt) (draw : Draw)
    (hclock : now + (work d.message).took.nanos + (r.retryPolicyFor queue).backoffMax.nanos <
      Moment.bound) :
    ∃ call, Runs r id visibility
      (.ended d (work d.message).failure (r.processNext c.broker now queue work draw).result call
        :: .called (.received queue (some d)) :: past)
      ⟨(r.processNext c.broker now queue work draw).broker, c.running⟩ := by
  obtain ⟨rfl, hnew⟩ := h.receive_eq hreceive
  have hbegun : Runs r id visibility (.called (.received d.queue (some d)) :: past)
      ⟨b, d :: c.running⟩ := h.step (.receive htime (.receive (List.Perm.refl _) hreceive))
  have hturn : r.processNext c.broker now d.queue work draw =
      r.settle b (now + (work d.message).took.nanos) d (work d.message).failure draw := by
    simp only [Router.processNext, hreceive]
  obtain ⟨call, hsettle⟩ := hbegun.manned.settle (r := r) List.mem_cons_self hclock
    (work d.message).failure draw
  -- The delivery is the only one that leaves.
  have hleft : (d :: c.running).filter (fun d' => d'.tag ≠ d.tag) = c.running := by
    rw [List.filter_cons_of_neg (by simp)]
    exact List.filter_eq_self.mpr fun d' hd' => decide_eq_true (hnew d' hd')
  have hruns := hbegun.step hsettle
  simp only [Crew.settled, hleft] at hruns
  rw [hturn]
  exact ⟨call, hruns⟩

end Crew

/-! ### Tickets -/

section Map

variable {α β : Type} (f : α → β)

/-- The same with messages of another type. -/
def WorkAct.map : WorkAct α → WorkAct β
  | .called act => .called (act.map f)
  | .ended d failure result call => .ended (d.map f) failure result (call.map (BrokerAct.map f))

/-- The same crew with messages of another type. -/
def Crew.map (c : Crew α) : Crew β := ⟨c.broker.map f, c.running.map (Delivery.map f)⟩

theorem Crew.map_settled (c : Crew α) (d : Delivery α) (b : Broker α) :
    (c.settled d b).map f = (c.map f).settled (d.map f) (b.map f) := by
  simp only [settled, map, List.filter_map]
  rfl

theorem Crew.InTime.of_map {c : Crew α} {now : Moment} (h : (c.map f).InTime now) :
    c.InTime now := by
  intro d hd hlate
  refine h (d.map f) (List.mem_map_of_mem hd) ?_
  show d.tag ∈ (c.broker.map f).expired now
  rwa [Broker.map_expired]

end Map

namespace Crew

/-- What happens on messages happens on tickets without their numbers, and a message that is
    published can be given any number. -/
theorem Steps.ticketed {r : Router} {C : Crew Ticket} {c' : Crew TaskMessage} {now : Moment}
    {act : WorkAct TaskMessage} (h : (C.map Ticket.message).Steps r id now act c') (n : Nat) :
    ∃ Act C', C.Steps r Ticket.message now Act C' ∧ Act.map Ticket.message = act ∧
      C'.map Ticket.message = c' ∧ ∀ call ∈ Act.call?, ∀ p ∈ call.published?, p.2.number = n := by
  cases h with
  | publish hdoes =>
    obtain ⟨Act, B', hDoes, hact, rfl, hnumber⟩ := Broker.Does.ticketed hdoes n
    cases Act <;> cases hact
    refine ⟨_, _, .publish hDoes, rfl, rfl, ?_⟩
    rintro call ⟨⟩
    exact hnumber
  | receive htime hdoes =>
    obtain ⟨Act, B', hDoes, hact, rfl, hnumber⟩ := Broker.Does.ticketed hdoes n
    -- What is handed out is a ticket whose message is the one handed out here.
    cases Act <;> cases hact
    rename_i queue D
    refine ⟨_, _, .receive (htime.of_map Ticket.message) hDoes, rfl, ?_, ?_⟩
    · cases D <;> rfl
    · rintro call ⟨⟩
      exact hnumber
  | requeue htime hdoes =>
    obtain ⟨Act, B', hDoes, hact, rfl, hnumber⟩ := Broker.Does.ticketed hdoes n
    cases Act <;> cases hact
    refine ⟨_, _, .requeue (htime.of_map Ticket.message) hDoes, rfl, rfl, ?_⟩
    rintro call ⟨⟩
    exact hnumber
  | succeed hd hdoes =>
    obtain ⟨D, hD, rfl⟩ := List.mem_map.mp hd
    obtain ⟨Act, B', hDoes, hact, rfl, hnumber⟩ := Broker.Does.ticketed hdoes n
    cases Act <;> cases hact
    refine ⟨_, _, .succeed hD hDoes, rfl, map_settled _ C D B', ?_⟩
    rintro call ⟨⟩
    exact hnumber
  | fail hd hfailed hafter hdoes =>
    obtain ⟨D, hD, rfl⟩ := List.mem_map.mp hd
    obtain ⟨Act, B', hDoes, hact, rfl, hnumber⟩ := Broker.Does.ticketed hdoes n
    cases Act <;> cases hact
    refine ⟨_, _, .fail hD hfailed hafter hDoes, rfl, map_settled _ C D B', ?_⟩
    rintro call ⟨⟩
    exact hnumber
  | overflow hd hfailed =>
    obtain ⟨D, hD, rfl⟩ := List.mem_map.mp hd
    refine ⟨_, _, .overflow hD hfailed, rfl, map_settled _ C D C.broker, ?_⟩
    rintro call ⟨⟩

/-- Whatever workers do with messages they do with tickets with the numbers taken away, of
    which no two have the same number. -/
theorem Runs.ticketed {r : Router} {visibility : Duration} {past : List (WorkAct TaskMessage)}
    {c : Crew TaskMessage} (h : Runs r id visibility past c) :
    ∃ Past C, Runs r Ticket.message visibility Past C ∧ (Broker.numbers (calls Past)).Nodup ∧
      Past.map (WorkAct.map Ticket.message) = past ∧ C.map Ticket.message = c := by
  -- The length of the history is a number that the history has not given yet.
  suffices hlt : ∃ Past C, Runs r Ticket.message visibility Past C ∧
      ((Broker.numbers (calls Past)).Nodup ∧
        ∀ n ∈ Broker.numbers (calls Past), n < Past.length) ∧
      Past.map (WorkAct.map Ticket.message) = past ∧ C.map Ticket.message = c by
    obtain ⟨Past, C, hruns, ⟨hnodup, -⟩, hpast, hc⟩ := hlt
    exact ⟨Past, C, hruns, hnodup, hpast, hc⟩
  induction h with
  | start =>
    refine ⟨[], ⟨{ visibility }, []⟩, .start, ⟨List.nodup_nil, nofun⟩, rfl, ?_⟩
    simp only [map, Broker.map_start, List.map_nil]
  | step h hstep ih =>
    obtain ⟨Past, C, hruns, ⟨hnodup, hlt⟩, rfl, rfl⟩ := ih
    obtain ⟨Act, C', hStep, rfl, rfl, hnumber⟩ := hstep.ticketed Past.length
    refine ⟨Act :: Past, C', hruns.step hStep, ?_, rfl, rfl⟩
    rw [calls, List.filterMap_cons]
    cases hcall : Act.call? with
    | none => exact ⟨hnodup, fun n hn => Nat.lt_succ_of_lt (hlt n hn)⟩
    | some call => exact Broker.numbers_next hnodup hlt (hnumber call hcall)

end Crew

end ExecutionControl
