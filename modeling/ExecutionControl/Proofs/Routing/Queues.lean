import ExecutionControl.Proofs.Delivery.RoutedRetries

/-! # The queues that workers look after

    Routes and the list of queues are computed apart from each other. They agree
    (`Router.queues_exact`): every queue of the list is where the route of some task leads,
    because every class has a task; and every route leads to a queue of the list, because
    every class is asked for its queue. With routing off both come down to the queue of the
    default class.

    A message that is dispatched stays on the queue of its route (`Broker.Routed`), and so it
    waits nowhere else than on a queue that is looked after.
-/

namespace ExecutionControl

/-! ### Ascending texts -/

section Ascending

variable {s t : String} {ts : List String}

theorem mem_insertText : s ∈ insertText t ts ↔ s = t ∨ s ∈ ts := by
  fun_induction insertText t ts with
  | case1 => simp
  | case2 => simp
  | case3 => simp
  | case4 u ts hlt hne ih =>
    rw [List.mem_cons, ih, List.mem_cons]
    exact or_left_comm

/-- A text that is put into ascending texts leaves them ascending. -/
theorem ascending_insertText (h : ts.Pairwise (· < ·)) : (insertText t ts).Pairwise (· < ·) := by
  fun_induction insertText t ts with
  | case1 => exact List.pairwise_singleton _ t
  | case2 u ts hlt =>
    have hrest := (List.pairwise_cons.mp h).1
    refine List.pairwise_cons.mpr ⟨?_, h⟩
    intro s hs
    rcases List.mem_cons.mp hs with hu | hs
    · exact hu ▸ hlt
    · exact String.lt_trans hlt (hrest s hs)
  | case3 => exact h
  | case4 u ts hlt hne ih =>
    obtain ⟨hfirst, hrest⟩ := List.pairwise_cons.mp h
    -- The text comes neither before nor at the first one, and so after it.
    have hafter : u < t := Std.lt_of_le_of_ne (String.not_lt.mp hlt) (Ne.symm hne)
    refine List.pairwise_cons.mpr ⟨?_, ih hrest⟩
    intro s hs
    rcases mem_insertText.mp hs with hs | hs
    · exact hs ▸ hafter
    · exact hfirst s hs

end Ascending

/-- Every class has a task. -/
theorem QueueClass.exists_task (c : QueueClass) : ∃ task, classify task = c := by
  cases c with
  | default => exact ⟨"", by decide⟩
  | scheduler => exact ⟨"trigger_scheduled_workflow", by decide⟩
  | notifications => exact ⟨"send_webhook_notification", by decide⟩
  | fileProcessing => exact ⟨"process_file_batch", by decide⟩
  | fileProcessingCallback => exact ⟨"process_batch_callback", by decide⟩
  | apiDeployments => exact ⟨"deploy_api", by decide⟩

namespace Router

variable {r : Router} {queue task : String}

/-! ### Queues and routes -/

theorem ascending_queues (r : Router) : r.queues.Pairwise (· < ·) := by
  unfold queues
  split
  · generalize QueueClass.all.map r.config.queueName = names
    induction names with
    | nil => exact List.Pairwise.nil
    | cons name names ih => exact ascending_insertText ih
  · exact List.pairwise_singleton _ _

/-- With routing on, the queues of all classes are looked after. -/
theorem mem_queues_of_enabled (h : r.config.enabled = true) :
    queue ∈ r.queues ↔ ∃ c, r.config.queueName c = queue := by
  have hmem : queue ∈ r.queues ↔ queue ∈ QueueClass.all.map r.config.queueName := by
    rw [queues, if_pos h]
    generalize QueueClass.all.map r.config.queueName = names
    induction names with
    | nil => rfl
    | cons name names ih => rw [List.foldr_cons, mem_insertText, ih, List.mem_cons]
  rw [hmem, List.mem_map]
  exact ⟨fun ⟨c, _, hc⟩ => ⟨c, hc⟩, fun ⟨c, hc⟩ => ⟨c, QueueClass.mem_all c, hc⟩⟩

/-- A queue is looked after if and only if the route of some task leads there. -/
theorem mem_queues_iff : queue ∈ r.queues ↔ ∃ task, (r.route task).queue = queue := by
  cases h : r.config.enabled with
  | true =>
    rw [mem_queues_of_enabled h]
    simp only [route, h, if_true]
    constructor
    · intro hqueue
      obtain ⟨c, hc⟩ := hqueue
      obtain ⟨task, htask⟩ := c.exists_task
      exact ⟨task, htask ▸ hc⟩
    · intro hroute
      obtain ⟨task, htask⟩ := hroute
      exact ⟨QueueClass.classify task, htask⟩
  | false =>
    simp only [queues, route, h, Bool.false_eq_true, if_false, List.mem_singleton]
    constructor
    · intro hqueue
      exact ⟨"", hqueue.symm⟩
    · intro hroute
      obtain ⟨_, hqueue⟩ := hroute
      exact hqueue.symm

end Router

namespace Broker.Routed

variable {r : Router} {b : Broker TaskMessage} {queue : String}

/-- Nothing waits on a queue that nobody looks after. -/
theorem pending_eq_nil (h : b.Routed r) (hqueue : queue ∉ r.queues) : b.pending queue = [] := by
  apply List.eq_nil_iff_forall_not_mem.mpr
  intro p hp
  exact hqueue (Router.mem_queues_iff.mpr ⟨p.message.task, h.pending queue p hp⟩)

theorem queue_mem {tag : Nat} {f : Flight TaskMessage} (h : b.Routed r)
    (hf : b.inFlight[tag]? = some f) : f.queue ∈ r.queues :=
  Router.mem_queues_iff.mpr ⟨f.message.task, h.inFlight tag f hf⟩

end Broker.Routed

namespace Router

/-- Workers look after exactly the queues that tasks can reach. Whatever the configuration, the
    queues are listed in strictly ascending order, and they are those that the route of some
    task leads to.

    On a broker to which messages are only dispatched, whatever is done with them, a message
    that is dispatched goes to a queue of the list; what is in flight came from such a queue,
    and on any other queue nothing waits. -/
theorem queues_exact (r : Router) :
    r.queues.Pairwise (· < ·) ∧
    (∀ queue, queue ∈ r.queues ↔ ∃ task, (r.route task).queue = queue) ∧
    ∀ (visibility : Duration) (past : List (BrokerAct TaskMessage)) (b : Broker TaskMessage),
      Broker.Runs visibility past b → r.OnlyDispatches past →
      (∀ now m queue b', r.dispatch b now m = .ok (queue, b') → queue ∈ r.queues) ∧
      (∀ (tag : Nat) (f : Flight TaskMessage), b.inFlight[tag]? = some f → f.queue ∈ r.queues) ∧
      ∀ queue, queue ∉ r.queues → b.pending queue = [] := by
  refine ⟨ascending_queues r, fun queue => mem_queues_iff, ?_⟩
  intro visibility past b hruns hdispatches
  have hrouted : b.Routed r := hruns.routed hdispatches
  refine ⟨?_, fun tag f hf => hrouted.queue_mem hf, fun queue => hrouted.pending_eq_nil⟩
  intro now m queue b' hdispatch
  obtain ⟨hqueue, -⟩ := does_of_dispatch hdispatch
  exact mem_queues_iff.mpr ⟨m.task, hqueue⟩

/-- Routing by settings that give two classes one queue and leave the name of a third blank. -/
def settledQueues : Router :=
  ⟨.ofSettings fun name =>
    if name = "DOCFLOW_TASK_ROUTING_ENABLED" then some " On "
    else if name = "DOCFLOW_QUEUE_SCHEDULER" then some "ops"
    else if name = "DOCFLOW_QUEUE_API_DEPLOYMENTS" then some " ops "
    else if name = "DOCFLOW_QUEUE_NOTIFICATIONS" then some "  "
    else none⟩

/-- The shared queue is listed once, the blank name is not used, and nothing waits on the queue
    that the scheduler would have had otherwise. -/
theorem queues_exact_settings :
    settledQueues.queues =
      ["default", "file_processing", "file_processing_callback", "notifications", "ops"] ∧
    (∃ task, (settledQueues.route task).queue = "ops") ∧
    ∃ b, settledQueues.dispatch { visibility := .seconds 300 } 0 (messageFor "deploy_api") =
        .ok ("ops", b) ∧ "ops" ∈ settledQueues.queues ∧ b.pending "scheduler" = [] := by
  have hqueues : settledQueues.queues =
      ["default", "file_processing", "file_processing_callback", "notifications", "ops"] := by
    decide +kernel
  have hqueue : (settledQueues.route "deploy_api").queue = "ops" := by decide +kernel
  obtain ⟨-, hreached, hbroker⟩ := queues_exact settledQueues
  refine ⟨hqueues, (hreached "ops").mp (by rw [hqueues]; decide), ?_⟩
  have hfits : 0 + Duration.zero.nanos < Moment.bound := by decide
  obtain ⟨b, hb⟩ := Broker.publish_returns { visibility := .seconds 300 }
    (settledQueues.route "deploy_api").queue (messageFor "deploy_api") hfits
  have hdispatch : settledQueues.dispatch { visibility := .seconds 300 } 0
      (messageFor "deploy_api") = .ok ("ops", b) := by
    simp only [dispatch, messageFor] at hb ⊢
    rw [hb, Except.map, hqueue]
  have hstart := (hbroker (.seconds 300) [] { visibility := .seconds 300 } .start nofun).1
  obtain ⟨hroute, hdoes⟩ := does_of_dispatch hdispatch
  have hnext := hbroker (.seconds 300) _ b (.call .start hdoes)
    (OnlyDispatches.dispatched nofun hroute)
  exact ⟨b, hdispatch, hstart 0 _ _ b hdispatch,
    hnext.2.2 "scheduler" (by rw [hqueues]; decide)⟩

end Router

end ExecutionControl
