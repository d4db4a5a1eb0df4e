import ExecutionControl.Proofs.Delivery.Workers

/-! # How a dispatched task is tried again

    A route says how its task is tried again: as the class of the task is. A worker only knows
    the queue that a message came from, and treats it as the first class that has this queue
    (`Router.Decides`). No two classes are tried again in the same way. The two agree therefore
    exactly if the class of the task is the first one that has its queue: always if routing is
    off or no two classes share a queue, and for one class only of those that share one
    (`retried_as_routed`).

    That a message is on the queue of its route is an invariant of the broker
    (`Broker.Routed`), as long as messages are only dispatched: they stay on their queue, and
    their task does not change.
-/

namespace ExecutionControl

/-! ### Classes in order -/

namespace QueueClass

/-- The place of a class among all classes. -/
def place (c : QueueClass) : Nat := all.idxOf c

variable {c d : QueueClass} {p : QueueClass → Bool}

theorem place_lt (c : QueueClass) : c.place < all.length := List.idxOf_lt_length_iff.mpr (mem_all c)

theorem place_getElem_le {i : Nat} (h : i < all.length) : (all[i]).place ≤ i := by
  by_contra hlt
  have hne := List.not_of_lt_findIdx (Nat.lt_of_not_le hlt)
  simp at hne

/-- The first class with a property. -/
theorem find?_all_eq_some_iff :
    all.find? p = some c ↔ p c = true ∧ ∀ d, d.place < c.place → p d = false := by
  rw [List.find?_eq_some_iff_getElem]
  constructor
  · rintro ⟨hc, i, hi, rfl, hfirst⟩
    refine ⟨hc, fun d hd => ?_⟩
    -- What was found may only stand further back than its place.
    have hlt := place_lt d
    have hget : all[d.place] = d := List.getElem_idxOf hlt
    have hbefore := hfirst d.place (Nat.lt_of_lt_of_le hd (place_getElem_le hi))
    rw [hget] at hbefore
    exact (Bool.not_eq_true' _).mp hbefore
  · rintro ⟨hc, hfirst⟩
    refine ⟨hc, c.place, place_lt c, List.getElem_idxOf (place_lt c), fun i hi => ?_⟩
    have hlt := Nat.lt_trans hi (place_lt c)
    rw [hfirst all[i] (Nat.lt_of_le_of_lt (place_getElem_le hlt) hi)]
    rfl

/-- No two classes are tried again in the same way. -/
theorem retryPolicy_injective : Function.Injective retryPolicy := by
  intro c d
  cases c <;> cases d <;> decide

end QueueClass

/-- A turn whose work on a message failed is settled as a policy says. -/
def Turn.Follows (p : RetryPolicy) (m : TaskMessage) (draw : Draw) (t : Turn) : Prop :=
  ∃ requeueAfter, p.after (m.failures + 1) draw = .ok requeueAfter ∧
    t.result = .ok (.ok (.ofFailure m.id (m.failures + 1) requeueAfter))

namespace Router

/-! ### Who decides -/

/-- The class that a queue is treated as: the first one that has it. -/
structure Decides (r : Router) (queue : String) (c : QueueClass) : Prop where
  named : r.config.queueName c = queue
  first : ∀ d, d.place < c.place → r.config.queueName d ≠ queue

variable {r : Router} {queue task : String} {c d : QueueClass}

theorem decides_iff :
    r.Decides queue c ↔ QueueClass.all.find? (fun d => r.config.queueName d == queue) = some c := by
  rw [QueueClass.find?_all_eq_some_iff]
  simp only [beq_iff_eq, beq_eq_false_iff_ne]
  exact ⟨fun h => ⟨h.named, h.first⟩, fun h => ⟨h.1, h.2⟩⟩

theorem Decides.retryPolicyFor_eq (h : r.Decides queue c) :
    r.retryPolicyFor queue = c.retryPolicy := by
  rw [retryPolicyFor, decides_iff.mp h, Option.getD_some]

/-- The queue of a task has a class that decides. -/
theorem exists_decides (r : Router) (task : String) : ∃ c, r.Decides (r.route task).queue c := by
  cases hfind : QueueClass.all.find? (fun d => r.config.queueName d == (r.route task).queue) with
  | some c => exact ⟨c, decides_iff.mpr hfind⟩
  | none =>
    have hnone := List.find?_eq_none.mp hfind _ (QueueClass.mem_all (r.route task).queueClass)
    exact absurd (beq_self_eq_true _) hnone

theorem retryPolicyFor_route_iff :
    r.retryPolicyFor (r.route task).queue = (r.route task).retry ↔
      r.Decides (r.route task).queue (r.route task).queueClass := by
  constructor
  · intro h
    -- Whichever class decides has the policy of the task's class, and is therefore that class.
    obtain ⟨c, hc⟩ := r.exists_decides task
    rw [hc.retryPolicyFor_eq] at h
    have hclass : c = (r.route task).queueClass := QueueClass.retryPolicy_injective h
    exact hclass ▸ hc
  · exact fun h => h.retryPolicyFor_eq

/-- With routing off the default class has every task, and it comes first. -/
theorem decides_of_disabled (h : r.config.enabled = false) :
    r.Decides (r.route task).queue (r.route task).queueClass where
  named := rfl
  first d hd := by
    simp only [route, h] at hd
    cases hd

theorem decides_of_injective (h : Function.Injective r.config.queueName) :
    r.Decides (r.route task).queue (r.route task).queueClass where
  named := rfl
  first d hd heq := by
    rw [h heq] at hd
    exact Nat.lt_irrefl _ hd

/-! ### What is dispatched -/

/-- Every message that was published was put on the queue of its route. -/
def OnlyDispatches (r : Router) (past : List (BrokerAct TaskMessage)) : Prop :=
  ∀ queue m delay, .published queue m delay ∈ past → (r.route m.task).queue = queue

theorem OnlyDispatches.dispatched {past : List (BrokerAct TaskMessage)} {m : TaskMessage}
    {delay : Duration} (h : r.OnlyDispatches past) (hqueue : (r.route m.task).queue = queue) :
    r.OnlyDispatches (.published queue m delay :: past) := by
  intro queue' m' delay' hmem
  rcases List.mem_cons.mp hmem with hfirst | hmem
  · cases hfirst
    exact hqueue
  · exact h queue' m' delay' hmem

/-- To dispatch a message is to publish it on the queue of its route. -/
theorem does_of_dispatch {b b' : Broker TaskMessage} {now : Moment} {m : TaskMessage}
    (h : r.dispatch b now m = .ok (queue, b')) :
    (r.route m.task).queue = queue ∧ b.Does now (.published queue m .zero) b' := by
  unfold dispatch at h
  cases hpublish : b.publish now (r.route m.task).queue m with
  | error o => rw [hpublish] at h; cases h
  | ok after =>
    rw [hpublish] at h
    cases h
    exact ⟨rfl, .publish hpublish⟩

end Router

theorem TaskMessage.task_failedOnce {m m' : TaskMessage} (h : m.failedOnce = .ok m') :
    m'.task = m.task := by
  unfold failedOnce at h
  split at h <;> cases h
  rfl

namespace Broker

/-- Whatever waits or is in flight is on the queue of its route. -/
structure Routed (r : Router) (b : Broker TaskMessage) : Prop where
  pending : ∀ queue, ∀ p ∈ b.pending queue, (r.route p.message.task).queue = queue
  inFlight : ∀ (tag : Nat) (f : Flight TaskMessage), b.inFlight[tag]? = some f →
    (r.route f.message.task).queue = f.queue

variable {r : Router} {b b' : Broker TaskMessage} {now : Moment} {queue : String} {tag : Nat}
  {act : BrokerAct TaskMessage} {m : TaskMessage}

theorem Routed.setPending {ps : List (Pending TaskMessage)} (h : b.Routed r)
    (hps : ∀ p ∈ ps, (r.route p.message.task).queue = queue) :
    (b.setPending queue ps).Routed r where
  pending other p hp := by
    by_cases hother : other = queue
    · subst hother
      rw [pending_setPending_self] at hp
      exact hps p hp
    · rw [pending_setPending_of_ne b ps hother] at hp
      exact h.pending other p hp
  inFlight := h.inFlight

theorem Routed.land (h : b.Routed r) : (b.land tag).Routed r where
  pending := h.pending
  inFlight other f hf := by
    rw [inFlight_land] at hf
    split at hf
    · cases hf
    · exact h.inFlight other f hf

theorem Routed.requeue (h : b.Routed r) : (b.requeue now tag).Routed r := by
  cases hf : b.inFlight[tag]? with
  | none => simpa only [Broker.requeue, hf] using h
  | some f =>
    rw [requeue_eq hf]
    refine h.land.setPending fun p hp => ?_
    rcases List.mem_cons.mp hp with rfl | hp
    · exact h.inFlight tag f hf
    · exact h.pending f.queue p hp

theorem Routed.requeueAll (h : b.Routed r) (tags : List Nat) :
    (b.requeueAll now tags).Routed r := by
  induction tags with
  | nil => exact h
  | cons tag tags ih => exact ih.requeue

theorem Routed.publish {delay : Duration} (h : b.Routed r) (hm : (r.route m.task).queue = queue)
    (hpublish : b.publish now queue m delay = .ok b') : b'.Routed r := by
  obtain ⟨visibleAt, rfl⟩ := publish_ok hpublish
  refine h.setPending fun p hp => ?_
  rcases List.mem_append.mp hp with hp | hp
  · exact h.pending queue p hp
  · cases List.mem_singleton.mp hp
    exact hm

theorem Routed.putBack {requeueAfter : Option Duration} (h : b.Routed r)
    (hm : (r.route m.task).queue = queue)
    (hput : b.putBack now queue m requeueAfter = .ok b') : b'.Routed r := by
  cases requeueAfter with
  | some delay => exact h.publish hm hput
  | none =>
    cases hput
    exact ⟨h.pending, h.inFlight⟩

/-- What is handed out was on the queue that was asked. -/
theorem Routed.deliver {d : Option (Delivery TaskMessage)} (h : b.Routed r)
    (hdeliver : b.deliver now queue = (.ok d, b')) :
    b'.Routed r ∧ ∀ d' ∈ d, d'.queue = queue ∧ (r.route d'.message.task).queue = queue := by
  obtain ⟨rfl, rfl⟩ | ⟨m, rest, deadline, htake, rfl, rfl⟩ := deliver_ok hdeliver
  · exact ⟨h, nofun⟩
  have hperm := takeVisible_perm htake
  -- The message that is taken and those that stay are the ones that waited.
  have hmessage : ∀ m' ∈ m :: rest.map (·.message), (r.route m'.task).queue = queue := by
    intro m' hm'
    obtain ⟨p, hp, rfl⟩ := List.mem_map.mp (hperm.mem_iff.mpr hm')
    exact h.pending queue p hp
  have hrest : (b.setPending queue rest).Routed r := h.setPending fun p hp =>
    hmessage _ (List.mem_cons_of_mem _ (List.mem_map_of_mem hp))
  have hm := hmessage m List.mem_cons_self
  refine ⟨⟨hrest.pending, fun tag f hf => ?_⟩, fun d' hd' => ?_⟩
  · rw [inFlight_launch] at hf
    split at hf
    · cases hf
      exact hm
    · exact h.inFlight tag f hf
  · cases hd'
    exact ⟨rfl, hm⟩

theorem Routed.does (h : b.Routed r) (hdoes : b.Does now act b')
    (hdispatch : r.OnlyDispatches [act]) : b'.Routed r := by
  cases hdoes with
  | publish hpublish => exact h.publish (hdispatch _ _ _ List.mem_cons_self) hpublish
  | receive _ hdeliver => exact ((h.requeueAll _).deliver hdeliver).1
  | requeueExpired _ => exact h.requeueAll _
  | ack hack =>
    unfold Broker.ack at hack
    split at hack <;> cases hack
    · exact h
    · exact h.land
  | nack hnack =>
    obtain ⟨-, rfl⟩ | ⟨f, m, hf, hfailed, -, hput⟩ := nack_ok hnack
    · exact h
    · -- The message is put back on the queue that it came from.
      have hm : (r.route m.task).queue = f.queue := by
        rw [TaskMessage.task_failedOnce hfailed]
        exact h.inFlight _ f hf
      exact h.land.putBack hm hput

theorem Runs.routed {visibility : Duration} {past : List (BrokerAct TaskMessage)}
    (h : Runs visibility past b) (hdispatch : r.OnlyDispatches past) : b.Routed r := by
  induction h with
  | start => exact ⟨fun queue p hp => by simp [Broker.pending] at hp, fun tag f hf => by simp at hf⟩
  | call _ hdoes ih =>
    refine (ih fun queue m delay hmem => ?_).does hdoes fun queue m delay hmem => ?_
    · exact hdispatch queue m delay (List.mem_cons_of_mem _ hmem)
    · exact hdispatch queue m delay (List.mem_cons.mpr (.inl (List.mem_singleton.mp hmem)))

end Broker

/-! ### Turns that fail -/

namespace Router

variable {r : Router} {b b' : Broker TaskMessage} {now : Moment} {queue : String}
  {d : Delivery TaskMessage}

/-- Where messages are only dispatched, a queue hands out the tasks that are routed to it. -/
theorem OnlyDispatches.routed {visibility : Duration} {past : List (BrokerAct TaskMessage)}
    (h : r.OnlyDispatches past) (hruns : Broker.Runs visibility past b)
    (hreceive : b.receive now queue = (.ok (some d), b')) :
    (r.route d.message.task).queue = queue := by
  have hrouted : (b.requeueAll now (b.expired now)).Routed r := (hruns.routed h).requeueAll _
  exact ((hrouted.deliver hreceive).2 d rfl).2

/-- What is handed out is in flight, from the queue that was asked. -/
theorem inFlight_of_receive (hreceive : b.receive now queue = (.ok (some d), b')) :
    d.queue = queue ∧ ∃ deadline, b'.inFlight[d.tag]? = some ⟨queue, d.message, deadline⟩ := by
  obtain ⟨hnone, -⟩ | ⟨m, rest, deadline, -, hd, rfl⟩ := Broker.deliver_ok hreceive
  · cases hnone
  obtain rfl := Option.some.inj hd
  exact ⟨rfl, deadline, by rw [Broker.inFlight_launch, if_pos rfl]⟩

/-- What is in flight is handed back, as long as the clock reaches as far as the delay. -/
theorem nack_of_inFlight {f : Flight TaskMessage} {requeueAfter : Option Duration} {tag : Nat}
    (hf : b.inFlight[tag]? = some f) (hcount : f.message.failures < Text.maxWord32)
    (hdelay : ∀ delay ∈ requeueAfter, now + delay.nanos < Moment.bound) :
    (b.nack now tag requeueAfter).1 = .ok (.ok ()) := by
  obtain ⟨result, b', hnack⟩ : ∃ result b', b.nack now tag requeueAfter = (.ok result, b') := by
    refine Broker.nack_returns hdelay fun f' hf' => ?_
    cases hf.symm.trans hf'
    exact ⟨_, if_pos hcount⟩
  obtain ⟨-, -, rfl, -⟩ := Broker.nack_ok_of_inFlight hf hnack
  rw [hnack]

/-- A delivery whose work failed is settled as the policy of its queue says. -/
theorem follows_settle {deadline : Moment} {e : String} {draw : Draw}
    (hf : b.inFlight[d.tag]? = some ⟨d.queue, d.message, deadline⟩)
    (hcount : d.message.failures < Text.maxWord32)
    (hclock : now + (r.retryPolicyFor d.queue).backoffMax.nanos < Moment.bound) :
    (r.settle b now d (some e) draw).Follows (r.retryPolicyFor d.queue) d.message draw := by
  have hfailed : d.message.failedOnce =
      .ok { d.message with failures := d.message.failures + 1 } := if_pos hcount
  simp only [Turn.Follows, settle, hfailed]
  obtain ⟨hretry, delay, hdelay, hafter, hle⟩ | ⟨hlast, hafter⟩ :=
    r.after_eq d.queue (d.message.failures + 1) draw
  -- It is tried again, and the delay keeps within the clock as its maximum does.
  · have hmax : delay.nanos ≤ (r.retryPolicyFor d.queue).backoffMax.nanos :=
      Nat.le_trans hle (RetryPolicy.delayFor_le _ _)
    have hnack : (b.nack now d.tag (some delay)).1 = .ok (.ok ()) :=
      nack_of_inFlight hf hcount fun _ hmem => by
        cases hmem
        exact Nat.lt_of_le_of_lt (Nat.add_le_add_left hmax now) hclock
    refine ⟨some delay, hafter, ?_⟩
    simp only [RetryPolicy.shouldRetry, hretry, decide_true, if_true, hdelay, hnack]
    rfl
  · have hnack : (b.nack now d.tag none).1 = .ok (.ok ()) :=
      nack_of_inFlight hf hcount fun delay hmem => by cases hmem
    refine ⟨none, hafter, ?_⟩
    simp only [RetryPolicy.shouldRetry, Nat.not_le.mpr hlast, decide_false, Bool.false_eq_true,
      if_false, hnack]
    rfl

/-- A turn whose work fails is settled as the policy of the queue says. -/
theorem follows_of_failure {work : TaskMessage → Attempt} {draw : Draw} {e : String}
    (hreceive : b.receive now queue = (.ok (some d), b'))
    (hwork : (work d.message).failure = some e)
    (hcount : d.message.failures < Text.maxWord32)
    (hclock : now + (work d.message).took.nanos + (r.retryPolicyFor queue).backoffMax.nanos <
      Moment.bound) :
    (r.processNext b now queue work draw).Follows (r.retryPolicyFor queue) d.message draw := by
  obtain ⟨rfl, deadline, hf⟩ := inFlight_of_receive hreceive
  simp only [processNext, hreceive, hwork]
  exact follows_settle hf hcount hclock

/-- A queue is treated as the first class that has it, and so the policy of the queue of a task is
    that of its route exactly if the class of the task is this one: for all tasks if routing is
    off or no two classes share a queue.

    On a broker to which messages are only dispatched, whatever is done with them, a worker finds
    on a queue the tasks whose routes lead there. If one of them fails, it is tried again or
    given up as the policy of the deciding class says, which is the policy of its route exactly
    if that class is the one of the task. -/
theorem retried_as_routed (r : Router) :
    (∀ task, r.retryPolicyFor (r.route task).queue = (r.route task).retry ↔
      r.Decides (r.route task).queue (r.route task).queueClass) ∧
    (r.config.enabled = false ∨ Function.Injective r.config.queueName →
      ∀ task, r.Decides (r.route task).queue (r.route task).queueClass) ∧
    ∀ (visibility : Duration) (past : List (BrokerAct TaskMessage)) (b : Broker TaskMessage),
      Broker.Runs visibility past b → r.OnlyDispatches past →
      (∀ now m queue b', r.dispatch b now m = .ok (queue, b') →
        queue = (r.route m.task).queue ∧
        Broker.Runs visibility (.published queue m .zero :: past) b' ∧
        r.OnlyDispatches (.published queue m .zero :: past)) ∧
      ∀ now queue d b' (work : TaskMessage → Attempt) draw e,
        b.receive now queue = (.ok (some d), b') → (work d.message).failure = some e →
        d.message.failures < Text.maxWord32 →
        now + (work d.message).took.nanos + (r.retryPolicyFor queue).backoffMax.nanos <
          Moment.bound →
        queue = (r.route d.message.task).queue ∧
        ∃ c, r.Decides queue c ∧
          (r.processNext b now queue work draw).Follows c.retryPolicy d.message draw ∧
          (c.retryPolicy = (r.route d.message.task).retry ↔
            c = (r.route d.message.task).queueClass) := by
  refine ⟨fun task => retryPolicyFor_route_iff, fun h task => ?_,
    fun visibility past b hruns hdispatches => ⟨?_, ?_⟩⟩
  · rcases h with hdisabled | hinjective
    · exact decides_of_disabled hdisabled
    · exact decides_of_injective hinjective
  · intro now m queue b' hdispatch
    obtain ⟨hqueue, hdoes⟩ := does_of_dispatch hdispatch
    exact ⟨hqueue.symm, hruns.call hdoes, hdispatches.dispatched hqueue⟩
  · intro now queue d b' work draw e hreceive hwork hcount hclock
    have hqueue := hdispatches.routed hruns hreceive
    -- What waits on a queue was routed there, and so some class decides for the queue.
    obtain ⟨c, hc⟩ := r.exists_decides d.message.task
    rw [hqueue] at hc
    refine ⟨hqueue.symm, c, hc, ?_, QueueClass.retryPolicy_injective.eq_iff⟩
    rw [← hc.retryPolicyFor_eq]
    exact follows_of_failure hreceive hwork hcount hclock

/-- Routing where the scheduler and the deployments share a queue. -/
def sharedOps : Router :=
  ⟨(RoutingConfig.routed.withQueueName .scheduler "ops").withQueueName .apiDeployments "ops"⟩

/-- A message for a task. -/
def messageFor (task : String) : TaskMessage := ⟨"m", task, .null, none, 0⟩

/-- Work that breaks off at once. -/
def breaking : TaskMessage → Attempt := fun _ => ⟨.zero, some "boom"⟩

/-- A task of the scheduler, which comes before the deployments, is tried again as it was
    routed. -/
theorem retried_as_routed_scheduler :
    ∃ b d b',
      sharedOps.dispatch { visibility := .seconds 300 } 0
        (messageFor "trigger_scheduled_workflow") = .ok ("ops", b) ∧
      b.receive 0 "ops" = (.ok (some d), b') ∧ d.message.task = "trigger_scheduled_workflow" ∧
      ∃ c, sharedOps.Decides "ops" c ∧
        (sharedOps.processNext b 0 "ops" breaking .one).Follows c.retryPolicy d.message .one ∧
        (c.retryPolicy = (sharedOps.route d.message.task).retry ↔
          c = (sharedOps.route d.message.task).queueClass) := by
  have hcomputed : (sharedOps.dispatch { visibility := .seconds 300 } 0
      (messageFor "trigger_scheduled_workflow")).toOption.map (fun p =>
        (p.1, (p.2.receive 0 "ops").1.toOption.join.map fun d =>
          (d.message.task, d.message.failures))) =
      some ("ops", some ("trigger_scheduled_workflow", 0)) := by
    decide +kernel
  have hclock : 0 + Duration.zero.nanos + (sharedOps.retryPolicyFor "ops").backoffMax.nanos <
      Moment.bound := by
    decide +kernel
  obtain ⟨-, -, hbroker⟩ := retried_as_routed sharedOps
  have hdispatched := (hbroker (.seconds 300) [] { visibility := .seconds 300 } .start nofun).1
  cases hdispatch : sharedOps.dispatch { visibility := .seconds 300 } 0
    (messageFor "trigger_scheduled_workflow") with
  | error o =>
    rw [hdispatch] at hcomputed
    cases hcomputed
  | ok p =>
    obtain ⟨queue, b⟩ := p
    rw [hdispatch] at hcomputed
    obtain ⟨rfl, hdelivered⟩ := Prod.mk.inj (Option.some.inj hcomputed)
    obtain ⟨-, hruns, hdispatches⟩ := hdispatched _ _ _ _ hdispatch
    rcases hreceive : b.receive 0 "ops" with ⟨o | _ | d, b'⟩
    all_goals rw [hreceive] at hdelivered
    · cases hdelivered
    · cases hdelivered
    · obtain ⟨htask, hfailures⟩ := Prod.mk.inj (Option.some.inj hdelivered)
      obtain ⟨-, hturn⟩ := (hbroker _ _ _ hruns hdispatches).2 0 "ops" d b' breaking .one "boom"
        hreceive rfl (hfailures.symm ▸ by decide) hclock
      exact ⟨b, d, b', rfl, hreceive, htask, hturn⟩

/-- A deployment waits on the same queue, and fails. It should be tried again after five seconds,
    and is so after ten, as if it were a task of the scheduler. -/
theorem retried_as_routed_fails_on_shared_queue :
    sharedOps.retryPolicyFor (sharedOps.route "deploy_api").queue ≠
      (sharedOps.route "deploy_api").retry ∧
    (sharedOps.route "deploy_api").retry.after 1 .one = .ok (some (.seconds 5)) ∧
    (sharedOps.dispatch { visibility := .seconds 300 } 0 (messageFor "deploy_api")).map (fun p =>
        (p.1, (sharedOps.processNext p.2 0 p.1 breaking .one).result)) =
      .ok ("ops", .ok (.ok (.retried "m" 1 (.seconds 10)))) := by
  decide +kernel

end Router

end ExecutionControl
