import ExecutionControl.Proofs.Delivery.Attempts

/-! # The retry budget of a message

    A message counts its own failures, while its queue says how often it may be tried again.
    As long as no delivery times out under a worker, the attempts at a message are therefore
    numbered in order, and the last of them is the one at which the budget is used up, or
    one that succeeds (`retry_budget`).

    What holds of a ticket is carried from the call that publishes it (`Crew.Tracks.start`)
    through every later step of a run (`Crew.Runs.tracks`).
-/

namespace ExecutionControl

open Broker

/-- How the work on a delivery is settled: a success acknowledges it, and a failure puts its
    message back with one more failure as long as retries are left, and gives it up then. -/
def Router.Resolves (r : Router) (b : Broker Ticket) (now : Moment) (d : Delivery Ticket)
    (result : Checked (Except UnknownDelivery Settlement)) (b' : Broker Ticket) :
    Option String → Prop
  | none => result = .ok (.ok (.acked d.message.message.id)) ∧ b' = b.land d.tag
  | some _ =>
    let p := r.retryPolicyFor d.queue
    let attempt := d.message.message.failures + 1
    (attempt ≤ p.maxRetries ∧ ∃ delay ≤ p.delayFor attempt,
      result = .ok (.ok (.retried d.message.message.id attempt delay)) ∧
      (b.land d.tag).publish now d.queue (d.message.failed 1) delay = .ok b') ∨
    (p.maxRetries < attempt ∧ result = .ok (.ok (.deadLettered d.message.message.id)) ∧
      b' = (b.land d.tag).bury (d.message.failed 1))

/-- A ticket waits, is worked on, was given up, or has left with a success. -/
def Crew.Keeps (past : List (WorkAct Ticket)) (c : Crew Ticket) (queue : String) (n : Nat) : Prop :=
  (∃ w ∈ c.broker.pending queue, w.message.number = n) ∨
  (∃ d ∈ c.running, d.tag ∈ c.broker.inFlight ∧ d.message.number = n) ∨
  (∃ m ∈ c.broker.deadLetters, m.number = n) ∨
  ∃ act ∈ past, act.Succeeds n

namespace Crew

variable {r : Router} {past : List (WorkAct Ticket)} {c c' : Crew Ticket} {queue : String}
  {t : Ticket} {place : Place} {now : Moment} {act : WorkAct Ticket} {d : Delivery Ticket}
  {b' : Broker Ticket} {n : Nat} {visibility : Duration}

/-! ### Whole runs -/

/-- Only tickets that were published are worked on. -/
theorem Steps.mem_numbers (hstep : c.Steps r Ticket.message now act c')
    (hs : Sound (calls past) c.broker) (hm : c.Manned) :
    ∀ m ∈ act.about?, m.number ∈ numbers (calls past) := by
  have hrunning : ∀ d ∈ c.running, d.message.number ∈ numbers (calls past) :=
    fun d hd => hs.conserved.mem_numbers (hm.mem_items hd)
  cases hstep with
  | publish => nofun
  | requeue => nofun
  | receive htime hdoes =>
    cases hdoes with
    | @receive _ _ tags _ htags hdeliver =>
      have hput : Sound (calls past) (c.broker.requeueAll now tags) := hs.requeueAll tags
      obtain ⟨rfl, rfl⟩ | ⟨m, rest, deadline, htake, rfl, rfl⟩ := deliver_ok hdeliver
      · nofun
      · rintro _ ⟨⟩
        exact hput.conserved.mem_numbers (launch_transfer deadline htake hput.tagged).moves.mem
  | succeed hd => rintro _ ⟨⟩; exact hrunning _ hd
  | fail hd => rintro _ ⟨⟩; exact hrunning _ hd
  | overflow hd => rintro _ ⟨⟩; exact hrunning _ hd

theorem calls_cons (act : WorkAct Ticket) (past : List (WorkAct Ticket)) :
    calls (act :: past) = act.call?.toList ++ calls past := by
  unfold calls
  cases hact : act.call? <;> simp [hact]

theorem numbers_calls_sublist (act : WorkAct Ticket) (past : List (WorkAct Ticket)) :
    (numbers (calls past)).Sublist (numbers (calls (act :: past))) := by
  rw [calls_cons]
  cases act.call? with
  | none => exact List.Sublist.refl _
  | some call =>
    show (numbers (calls past)).Sublist (numbers (call :: calls past))
    rw [numbers_cons]
    exact List.sublist_append_right _ _

theorem Runs.mem_numbers (h : Runs r Ticket.message visibility past c)
    (hnodup : (numbers (calls past)).Nodup) :
    ∀ act ∈ past, ∀ m ∈ act.about?, m.number ∈ numbers (calls past) := by
  induction h with
  | start => rintro _ ⟨⟩
  | @step past c now act c' hruns hstep ih =>
    have hsub := numbers_calls_sublist act past
    have hbefore := hnodup.sublist hsub
    intro a ha m hm
    refine hsub.mem ?_
    rcases List.mem_cons.mp ha with rfl | ha
    · exact hstep.mem_numbers (hruns.broker.sound hbefore) hruns.manned m hm
    · exact ih hbefore a ha m hm

theorem attempts_eq_nil (h : ∀ act ∈ past, ¬ act.Begins n) : attempts n past = [] := by
  induction past with
  | nil => rfl
  | cons act past ih =>
    obtain ⟨hact, hpast⟩ := List.forall_mem_cons.mp h
    rw [attempts_of_not_begins hact, ih hpast]

/-- A ticket is followed from the call that publishes it. -/
theorem Tracks.start {delay : Duration} (hs : Sound (calls past) c.broker)
    (hpublish : c.broker.publish now queue t delay = .ok b')
    (hfresh : t.number ∉ numbers (calls past))
    (hknown : ∀ act ∈ past, ∀ m ∈ act.about?, m.number ∈ numbers (calls past)) :
    Tracks r (.called (.published queue t delay) :: past) ⟨b', c.running⟩ queue t
      (.queue queue) := by
  obtain ⟨hnacks, hlies⟩ := hs.lies_published hpublish hfresh
  replace hnacks : nacks t.number (calls (.called (.published queue t delay) :: past)) = 0 := hnacks
  have hunheard : ∀ act ∈ WorkAct.called (.published queue t delay) :: past,
      ∀ m ∈ act.about?, m.number ≠ t.number := by
    intro act hact m hm hn
    rcases List.mem_cons.mp hact with rfl | hact
    · cases hm
    · exact hfresh (hn ▸ hknown act hact m hm)
  have hopen : ∀ act ∈ WorkAct.called (.published queue t delay) :: past,
      ¬ act.Closes t.number := by
    intro act hact hcloses
    obtain ⟨m, hm, hn⟩ := number_of_closes hcloses
    exact hunheard act hact m hm hn
  have hidle : ∀ act ∈ WorkAct.called (.published queue t delay) :: past,
      ¬ act.Begins t.number := by
    intro act hact hbegins
    obtain ⟨m, hm, hn⟩ := number_of_begins hbegins
    exact hunheard act hact m hm hn
  constructor
  case lies => exact hlies
  case attempts_eq =>
    rw [attempts_eq_nil hidle, hnacks]
    rfl
  case allows =>
    rw [hnacks]
    exact .inl rfl
  case worked => nofun
  case succeeded => nofun
  case closed =>
    rintro ⟨act, hact, hcloses⟩
    exact absurd hcloses (hopen act hact)
  case final =>
    exact List.pairwise_of_forall_mem_list fun _ _ act hact hcloses =>
      absurd hcloses (hopen act hact)

/-- A step that publishes is the call that does so. -/
theorem Steps.published (hstep : c.Steps r Ticket.message now act c') {call : BrokerAct Ticket}
    (hcall : call ∈ act.call?) {p : String × Ticket} (hp : p ∈ call.published?) :
    ∃ delay b', act = .called (.published p.1 p.2 delay) ∧ c' = ⟨b', c.running⟩ ∧
      c.broker.publish now p.1 p.2 delay = .ok b' := by
  cases hstep <;> cases hcall <;> cases hp
  case publish.refl.refl queue m delay b' hdoes =>
    cases hdoes with
    | publish hpublish => exact ⟨delay, b', rfl, rfl, hpublish⟩

/-- Every ticket that was published can be followed. -/
theorem Runs.tracks (h : Runs r Ticket.message visibility past c)
    (hnodup : (numbers (calls past)).Nodup) :
    ∀ p ∈ publications (calls past), p.2.message.failures < Text.maxWord32 →
      ∃ place, c.Tracks r past p.1 p.2 place := by
  induction h with
  | start => nofun
  | @step past c now act c' hruns hstep ih =>
    intro p hp hfits
    have hbefore := hnodup.sublist (numbers_calls_sublist act past)
    have hsound := hruns.broker.sound hbefore
    rw [calls_cons] at hnodup hp
    have hfresh : ∀ call ∈ act.call?, ∀ q ∈ call.published?, q.2.number ∉ numbers (calls past) := by
      intro call hcall q hq
      rw [hcall] at hnodup
      replace hnodup : (numbers (call :: calls past)).Nodup := hnodup
      rw [numbers_cons, hq] at hnodup
      exact (List.nodup_cons.mp hnodup).1
    -- The ticket was followed already, or it is the one that this step publishes.
    by_cases hold : p ∈ publications (calls past)
    · obtain ⟨place, htracks⟩ := ih hbefore p hold hfits
      refine htracks.steps hsound hruns.manned hfits hstep fun call hcall q hq heq => ?_
      exact hfresh call hcall q hq (heq ▸ List.mem_map_of_mem hold)
    · cases hcall : act.call? with
      | none =>
        rw [hcall] at hp
        exact absurd hp hold
      | some call =>
        rw [hcall] at hp
        replace hp : p ∈ publications (call :: calls past) := hp
        rw [publications_cons, List.mem_append, Option.mem_toList] at hp
        have hnew : p ∈ call.published? := hp.resolve_right hold
        obtain ⟨delay, b', rfl, rfl, hpublish⟩ := hstep.published hcall hnew
        exact ⟨_, .start hsound hpublish (hfresh call hcall p hnew)
          (hruns.mem_numbers hbefore)⟩

/-! ### The budget -/

/-- The budget bounds how many attempts are begun. -/
theorem begun_le {p : RetryPolicy} {f k : Nat} (h : p.Allows f k place) :
    place.begun k ≤ max 1 (p.maxRetries + 1 - f) := by
  cases place <;> simp only [RetryPolicy.Allows, Place.begun] at * <;> omega

/-- The attempt that is worked on is the one that was begun last. -/
theorem Tracks.head_attempts (h : c.Tracks r past queue t place) (hm : c.Manned)
    (hd : d ∈ c.running) (hn : d.message.number = t.number) :
    (attempts t.number past).head? = some (d.message.message.failures + 1) := by
  obtain ⟨rfl, hmessage, -⟩ := h.eq_of_running hm hd hn
  have hattempts := congrArg List.reverse h.attempts_eq
  rw [List.reverse_reverse, Place.begun, List.range'_1_concat, List.reverse_append] at hattempts
  rw [hattempts, hmessage]
  simp only [List.reverse_singleton, List.singleton_append, List.head?_cons, Ticket.failed]
  congr 1
  omega

theorem Tracks.keeps (h : c.Tracks r past queue t place) (hm : c.Manned) :
    c.Keeps past queue t.number := by
  obtain ⟨i, hi, hn, hqueue⟩ := h.lies.exists_mem
  cases place with
  | queue name =>
    obtain ⟨w, hw, rfl⟩ := List.mem_map.mp hi
    obtain rfl := hqueue name rfl
    exact .inl ⟨w, hw, hn⟩
  | inFlight tag =>
    obtain ⟨d, hd, -, hnumber⟩ := h.worked tag rfl
    obtain ⟨deadline, hf⟩ := hm d hd
    exact .inr (.inl ⟨d, hd, mem_inFlight.mpr ⟨_, hf⟩, hnumber⟩)
  | deadLetters =>
    obtain ⟨m, hmem, rfl⟩ := List.mem_map.mp hi
    exact .inr (.inr (.inl ⟨m, hmem, hn⟩))
  | done => exact .inr (.inr (.inr (h.succeeded rfl)))

/-- Only what is worked on ends. -/
theorem Steps.mem_running {failure : Option String}
    {result : Checked (Except UnknownDelivery Settlement)} {call : Option (BrokerAct Ticket)}
    (hstep : c.Steps r Ticket.message now (.ended d failure result call) c') : d ∈ c.running := by
  cases hstep with
  | succeed hd => exact hd
  | fail hd => exact hd
  | overflow hd => exact hd

/-- The end of the work on a message that can count one more failure. -/
theorem Steps.resolves {failure : Option String}
    {result : Checked (Except UnknownDelivery Settlement)} {call : Option (BrokerAct Ticket)}
    (hstep : c.Steps r Ticket.message now (.ended d failure result call) c') (hm : c.Manned)
    (hfits : d.message.message.failures < Text.maxWord32) :
    r.Resolves c.broker now d result c'.broker failure := by
  cases hstep with
  | succeed hd hdoes =>
    cases hdoes with
    | ack hack =>
      rw [hm.ack_eq hd] at hack
      cases hack
      exact ⟨rfl, rfl⟩
  | @fail _ e failed draw requeueAfter result b' hd hfailed hafter hdoes =>
    cases hdoes with
    | nack hnack =>
      obtain ⟨m, hfailedOnce, rfl, hput⟩ := hm.nack_ok hd hnack
      obtain rfl := Ticket.failedOnce_eq hfailedOnce
      rw [TaskMessage.failures_failedOnce hfailed] at hafter ⊢
      -- The policy of the queue decides whether the message is handed back or given up.
      obtain ⟨hretry, delay, -, hdelay, hle⟩ | ⟨hlast, hnone⟩ :=
        r.after_eq d.queue (d.message.message.failures + 1) draw
      · obtain rfl : requeueAfter = some delay := Except.ok.inj (hafter.symm.trans hdelay)
        exact .inl ⟨hretry, delay, hle, rfl, hput⟩
      · obtain rfl : requeueAfter = none := Except.ok.inj (hafter.symm.trans hnone)
        cases hput
        exact .inr ⟨hlast, rfl, rfl⟩
  | overflow hd hfailed =>
    simp only [TaskMessage.failedOnce, hfits, if_true] at hfailed
    cases hfailed

/-- The retry budget of a message. Whatever workers do on a broker, in any order and with any
    other messages between, as long as no delivery times out while it is worked on: a turn of
    a worker is among it, and so is the end of the work on any delivery; and it is what they do
    with tickets that have numbers of their own, with the numbers taken away.

    The attempts at a ticket that was published are then numbered in order, from one more than
    the failures that it came with, and there are no more of them than its queue allows, or
    one. None is begun once an attempt has succeeded or the ticket was given up. Each of them
    settles its delivery as the policy of the queue says (`Router.Resolves`). And the ticket
    leaves only with a success. -/
theorem retry_budget (r : Router) (visibility : Duration) :
    (∀ (past : List (WorkAct TaskMessage)) (c : Crew TaskMessage), Runs r id visibility past c →
      (∀ (queue : String) (now : Moment) (d : Delivery TaskMessage) (b : Broker TaskMessage)
        (work : TaskMessage → Attempt) (draw : Draw),
        c.InTime now → c.broker.receive now queue = (.ok (some d), b) →
        now + (work d.message).took.nanos + (r.retryPolicyFor queue).backoffMax.nanos <
          Moment.bound →
        ∃ call, Runs r id visibility
          (.ended d (work d.message).failure
            (r.processNext c.broker now queue work draw).result call ::
              .called (.received queue (some d)) :: past)
          ⟨(r.processNext c.broker now queue work draw).broker, c.running⟩) ∧
      (∀ d ∈ c.running, ∀ (now : Moment) (failure : Option String) (draw : Draw),
        now + (r.retryPolicyFor d.queue).backoffMax.nanos < Moment.bound →
        ∃ call, c.Steps r id now
          (.ended d failure (r.settle c.broker now d failure draw).result call)
          (c.settled d (r.settle c.broker now d failure draw).broker)) ∧
      ∃ Past C, Runs r Ticket.message visibility Past C ∧ (numbers (calls Past)).Nodup ∧
        Past.map (WorkAct.map Ticket.message) = past ∧ C.map Ticket.message = c) ∧
    ∀ (past : List (WorkAct Ticket)) (c : Crew Ticket), Runs r Ticket.message visibility past c →
      (numbers (calls past)).Nodup →
      ∀ p ∈ publications (calls past), p.2.message.failures < Text.maxWord32 →
        (∃ k ≤ max 1 ((r.retryPolicyFor p.1).maxRetries + 1 - p.2.message.failures),
          (attempts p.2.number past).reverse = List.range' (p.2.message.failures + 1) k) ∧
        (past.Pairwise fun later earlier =>
          earlier.Closes p.2.number → ¬ later.Begins p.2.number) ∧
        (∀ now d failure result call c',
          c.Steps r Ticket.message now (.ended d failure result call) c' →
          d.message.number = p.2.number →
          d.queue = p.1 ∧ (∃ k, d.message = p.2.failed k) ∧
          (attempts p.2.number past).head? = some (d.message.message.failures + 1) ∧
          r.Resolves c.broker now d result c'.broker failure) ∧
        c.Keeps past p.1 p.2.number := by
  refine ⟨fun past c h => ⟨?_, ?_, h.ticketed⟩, ?_⟩
  · intro queue now d b work draw htime hreceive hclock
    exact h.turn htime hreceive work draw hclock
  · intro d hd now failure draw hclock
    exact h.manned.settle hd hclock failure draw
  intro past c h hnodup p hp hfits
  obtain ⟨place, htracks⟩ := h.tracks hnodup p hp hfits
  refine ⟨⟨_, begun_le htracks.allows, htracks.attempts_eq⟩, htracks.final, ?_,
    htracks.keeps h.manned⟩
  intro now d failure result call c' hstep hn
  have hd : d ∈ c.running := hstep.mem_running
  obtain ⟨rfl, hmessage, hqueue⟩ := htracks.eq_of_running h.manned hd hn
  have hlt : d.message.message.failures < Text.maxWord32 := by
    rw [hmessage]
    exact htracks.failures_lt hfits
  exact ⟨hqueue, ⟨_, hmessage⟩, htracks.head_attempts h.manned hd hn,
    hstep.resolves h.manned hlt⟩

/-- A message that has failed three times waits. -/
def threeFailed : Checked (Broker TaskMessage) :=
  Broker.publish { visibility := .seconds 5 } 0 "default" ⟨"m", "t", .null, none, 3⟩ .zero

/-- Work that takes no time and fails. -/
def failing : TaskMessage → Attempt := fun _ => ⟨.zero, some "boom"⟩

/-- The fourth attempt is the last one. -/
theorem retry_budget_used_up :
    ∃ (past : List (WorkAct Ticket)) (c : Crew Ticket) (t : Ticket),
      Runs ⟨.plain⟩ Ticket.message (.seconds 5) past c ∧ t.message.failures = 3 ∧
      (∃ d call, .ended d (some "boom") (.ok (.ok (.deadLettered "m"))) call ∈ past) ∧
      (∃ k ≤ 1, (attempts t.number past).reverse = List.range' 4 k) ∧
      c.Keeps past "default" t.number := by
  have hhanded : threeFailed.toOption.map (fun b =>
      (b.receive 0 "default").1.toOption.join.isSome) = some true := by decide +kernel
  have hresult : threeFailed.toOption.map (fun b =>
      decide (((⟨.plain⟩ : Router).processNext b 0 "default" failing .one).result =
        .ok (.ok (.deadLettered "m")))) = some true := by decide +kernel
  have hpublish : ∀ b, threeFailed = .ok b → Broker.Does { visibility := .seconds 5 } 0
      (.published "default" ⟨"m", "t", .null, none, 3⟩ .zero) b := fun b hb => .publish hb
  -- The turn is not computed any further.
  generalize threeFailed = published at hhanded hresult hpublish
  rcases published with _ | b
  · cases hresult
  simp only [Except.toOption, Option.map_some, Option.some.injEq] at hhanded hresult
  have hpublished : Runs ⟨.plain⟩ id (.seconds 5)
      [.called (.published "default" ⟨"m", "t", .null, none, 3⟩ .zero)] ⟨b, []⟩ :=
    Runs.start.step (.publish (hpublish b rfl))
  rcases hreceive : b.receive 0 "default" with ⟨_ | _ | d, b'⟩
  · rw [hreceive] at hhanded
    cases hhanded
  · rw [hreceive] at hhanded
    cases hhanded
  have hclock : 0 + Duration.zero.nanos +
      ((⟨.plain⟩ : Router).retryPolicyFor "default").backoffMax.nanos < Moment.bound := by
    decide +kernel
  have hbudget : max 1 (((⟨.plain⟩ : Router).retryPolicyFor "default").maxRetries + 1 - 3) ≤ 1 := by
    decide +kernel
  obtain ⟨call, hturn⟩ := ((retry_budget _ _).1 _ _ hpublished).1 "default" 0 d b' failing .one
    nofun hreceive hclock
  rw [of_decide_eq_true hresult] at hturn
  obtain ⟨-, -, Past, C, hRuns, hnodup, hpast, -⟩ := (retry_budget _ _).1 _ _ hturn
  -- The ticket is the one that the first call has published.
  obtain ⟨ended, rest, rfl, hended, hrest⟩ := List.map_eq_cons_iff.mp hpast
  obtain ⟨received, rest', rfl, -, hrest'⟩ := List.map_eq_cons_iff.mp hrest
  obtain ⟨first, rest'', rfl, hfirst, -⟩ := List.map_eq_cons_iff.mp hrest'
  rcases first with (⟨queue, t, delay⟩ | _ | _ | _ | _) | _
  case called.published =>
    obtain ⟨rfl, hmessage, rfl⟩ :
        queue = "default" ∧ t.message = ⟨"m", "t", .null, none, 3⟩ ∧ delay = .zero := by
      simpa [WorkAct.map, BrokerAct.map] using hfirst
    have hmem : ("default", t) ∈ publications
        (calls (ended :: received :: .called (.published "default" t .zero) :: rest'')) := by
      refine List.mem_filterMap.mpr ⟨.published "default" t .zero, ?_, rfl⟩
      refine List.mem_filterMap.mpr ⟨.called (.published "default" t .zero), ?_, rfl⟩
      simp
    have hfailures : t.message.failures = 3 := by rw [hmessage]
    obtain ⟨⟨k, hk, hattempts⟩, -, -, hkeeps⟩ := (retry_budget _ _).2 _ _ hRuns hnodup _ hmem
      (by rw [hfailures]; decide)
    refine ⟨_, C, t, hRuns, hfailures, ?_, ⟨k, ?_, ?_⟩, hkeeps⟩
    · rcases ended with _ | ⟨D, failure, result, call'⟩
      · cases hended
      · obtain ⟨-, hfailure, rfl, -⟩ := WorkAct.ended.inj hended
        subst hfailure
        exact ⟨D, call', List.mem_cons_self⟩
    · simp only [hfailures] at hk
      exact hk.trans hbudget
    · rwa [hfailures] at hattempts
  all_goals cases hfirst

end Crew

end ExecutionControl
