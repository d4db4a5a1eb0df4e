import ExecutionControl.Proofs.Delivery.Workers

/-! # The attempts at a ticket

    `Crew.Tracks` follows a ticket that was published through the places where it can be,
    while workers work on it and on others. Where it lies and how often it was handed back
    tell how many attempts at it were begun (`Broker.Place.begun`) and what was left of its
    retries then (`RetryPolicy.Allows`).

    The attempts are numbered without a gap because an attempt is begun only where the ticket
    waits, and its delivery is still in flight when the attempt is over. Every step keeps
    that up (`Crew.Tracks.steps`).
-/

namespace ExecutionControl

open Broker

theorem TaskMessage.failures_failedOnce {m m' : TaskMessage} (h : m.failedOnce = .ok m') :
    m'.failures = m.failures + 1 := by
  unfold failedOnce at h
  split at h <;> cases h
  rfl

/-- No queue has more than a few retries. -/
theorem Router.maxRetries_lt (r : Router) (queue : String) :
    (r.retryPolicyFor queue).maxRetries < Text.maxWord32 := by
  unfold retryPolicyFor
  cases (QueueClass.all.find? fun c => r.config.queueName c == queue).getD .default <;> decide

/-! ### What a history says of a ticket -/

namespace WorkAct

/-- The ticket that is worked on, where the work begins or ends. -/
def about? : WorkAct Ticket → Option Ticket
  | .called (.received _ d) => d.map (·.message)
  | .called _ => none
  | .ended d _ _ _ => some d.message

/-- The work on a ticket begins. -/
def Begins (n : Nat) (act : WorkAct Ticket) : Prop := ∃ d ∈ act.begun?, d.message.number = n

/-- The work on a ticket succeeds, and its delivery is acknowledged. -/
def Succeeds (n : Nat) (act : WorkAct Ticket) : Prop :=
  ∃ d id call, act = .ended d none (.ok (.ok (.acked id))) call ∧ d.message.number = n

/-- A ticket is given up. -/
def GivesUp (n : Nat) (act : WorkAct Ticket) : Prop :=
  ∃ d e id call, act = .ended d (some e) (.ok (.ok (.deadLettered id))) call ∧
    d.message.number = n

/-- The work on a ticket is over for good. -/
def Closes (n : Nat) (act : WorkAct Ticket) : Prop := act.Succeeds n ∨ act.GivesUp n

end WorkAct

/-- The numbers of the attempts at a ticket, the latest first; that of the first attempt at a
    message without failures is one. -/
def attempts (n : Nat) (past : List (WorkAct Ticket)) : List Nat :=
  ((past.filterMap WorkAct.begun?).filter fun d => d.message.number = n).map
    fun d => d.message.message.failures + 1

/-- How many attempts at a ticket were begun, by where it lies and how often it was handed
    back. -/
def Broker.Place.begun (k : Nat) : Place → Nat
  | .queue _ => k
  | .inFlight _ => k + 1
  | .deadLetters => k
  | .done => k + 1

/-- What the budget says of a message that was published with `f` failures and was handed
    back `k` times, by where it lies. -/
def RetryPolicy.Allows (p : RetryPolicy) (f k : Nat) : Place → Prop
  | .deadLetters => 0 < k ∧ p.maxRetries < f + k ∧ (k = 1 ∨ f + k ≤ p.maxRetries + 1)
  | _ => k = 0 ∨ f + k ≤ p.maxRetries

/-! ### Following a ticket -/

namespace Crew

/-- A ticket that was published to a queue, and where it lies now. -/
structure Tracks (r : Router) (past : List (WorkAct Ticket)) (c : Crew Ticket) (queue : String)
    (t : Ticket) (place : Place) : Prop where
  lies : c.broker.Lies (calls past) queue t place
  /-- The attempts are numbered in order, and the place tells how many there were. -/
  attempts_eq : (attempts t.number past).reverse =
    List.range' (t.message.failures + 1) (place.begun (nacks t.number (calls past)))
  allows : (r.retryPolicyFor queue).Allows t.message.failures (nacks t.number (calls past)) place
  /-- While the ticket is in flight it is worked on. -/
  worked : ∀ tag, place = .inFlight tag → ∃ d ∈ c.running, d.tag = tag ∧ d.message.number = t.number
  succeeded : place = .done → ∃ act ∈ past, act.Succeeds t.number
  /-- What is over for good neither waits nor is worked on. -/
  closed : (∃ act ∈ past, act.Closes t.number) → place = .done ∨ place = .deadLetters
  final : past.Pairwise fun later earlier => earlier.Closes t.number → ¬ later.Begins t.number

variable {r : Router} {past : List (WorkAct Ticket)} {c c' : Crew Ticket} {queue : String}
  {t : Ticket} {place : Place} {now : Moment} {act : WorkAct Ticket} {d : Delivery Ticket}
  {b' : Broker Ticket} {tag n : Nat}

theorem number_of_begins (h : act.Begins n) : ∃ m ∈ act.about?, m.number = n := by
  obtain ⟨d, hd, hn⟩ := h
  rcases act with (_ | ⟨_, d'⟩ | _ | _ | _) | _
  case called.received =>
    obtain rfl : d' = some d := hd
    exact ⟨d.message, rfl, hn⟩
  all_goals cases hd

theorem number_of_closes (h : act.Closes n) : ∃ m ∈ act.about?, m.number = n := by
  rcases h with ⟨d, id, call, rfl, hn⟩ | ⟨d, e, id, call, rfl, hn⟩
  · exact ⟨d.message, rfl, hn⟩
  · exact ⟨d.message, rfl, hn⟩

theorem attempts_of_not_begins (h : ¬ act.Begins n) :
    attempts n (act :: past) = attempts n past := by
  unfold attempts
  rw [List.filterMap_cons]
  cases hd : act.begun? with
  | none => rfl
  | some d =>
    have hne : ¬ d.message.number = n := fun heq => h ⟨d, hd, heq⟩
    simp only [List.filter_cons, hne, decide_false, Bool.false_eq_true, if_false]

/-- A step that is not about the ticket. -/
theorem Tracks.other (h : c.Tracks r past queue t place)
    (hact : ∀ m ∈ act.about?, m.number ≠ t.number)
    (hlies : c'.broker.Lies (calls (act :: past)) queue t place)
    (hnacks : nacks t.number (calls (act :: past)) = nacks t.number (calls past))
    (hrunning : ∀ d ∈ c.running, d.message.number = t.number → d ∈ c'.running) :
    c'.Tracks r (act :: past) queue t place := by
  have hbegins : ¬ act.Begins t.number := by
    intro hbegins
    obtain ⟨m, hm, hn⟩ := number_of_begins hbegins
    exact hact m hm hn
  constructor
  case lies => exact hlies
  case attempts_eq =>
    rw [attempts_of_not_begins hbegins, hnacks]
    exact h.attempts_eq
  case allows =>
    rw [hnacks]
    exact h.allows
  case worked =>
    intro tag hplace
    obtain ⟨d, hd, htag, hn⟩ := h.worked tag hplace
    exact ⟨d, hrunning d hd hn, htag, hn⟩
  case succeeded =>
    intro hplace
    obtain ⟨a, ha, hs⟩ := h.succeeded hplace
    exact ⟨a, List.mem_cons_of_mem act ha, hs⟩
  case closed =>
    rintro ⟨a, ha, hcloses⟩
    rcases List.mem_cons.mp ha with rfl | ha
    · obtain ⟨m, hm, hn⟩ := number_of_closes hcloses
      exact absurd hn (hact m hm)
    · exact h.closed ⟨a, ha, hcloses⟩
  case final => exact List.pairwise_cons.mpr ⟨fun _ _ _ => hbegins, h.final⟩

/-- The work on the ticket begins. -/
theorem Tracks.begin_work {name : String} (h : c.Tracks r past queue t (.queue name))
    (hmessage : d.message = t.failed (nacks t.number (calls past)))
    (hlies : c'.broker.Lies (calls (.called (.received name (some d)) :: past)) queue t
      (.inFlight d.tag))
    (hrunning : d ∈ c'.running) :
    c'.Tracks r (.called (.received name (some d)) :: past) queue t (.inFlight d.tag) := by
  have hn : d.message.number = t.number := by rw [hmessage]; rfl
  -- A ticket that waits is not closed.
  have hopen : ¬ ∃ act ∈ past, act.Closes t.number := by
    intro hclosed
    rcases h.closed hclosed with hplace | hplace <;> cases hplace
  constructor
  case lies => exact hlies
  case attempts_eq =>
    have hattempts : attempts t.number (.called (.received name (some d)) :: past) =
        (t.message.failures + nacks t.number (calls past) + 1) :: attempts t.number past := by
      simp [attempts, WorkAct.begun?, hmessage, Ticket.failed]
    rw [hattempts, List.reverse_cons, h.attempts_eq]
    show _ = List.range' _ (nacks t.number (calls past) + 1)
    rw [List.range'_1_concat]
    simp only [Place.begun]
    congr 2
    omega
  case allows => exact h.allows
  case worked =>
    rintro tag ⟨⟩
    exact ⟨d, hrunning, rfl, hn⟩
  case succeeded =>
    intro hdone
    cases hdone
  case closed =>
    rintro ⟨a, ha, hcloses⟩
    rcases List.mem_cons.mp ha with rfl | ha
    · rcases hcloses with ⟨_, _, _, heq, _⟩ | ⟨_, _, _, _, heq, _⟩ <;> cases heq
    · exact absurd ⟨a, ha, hcloses⟩ hopen
  case final =>
    exact List.pairwise_cons.mpr ⟨fun a ha hcloses => absurd ⟨a, ha, hcloses⟩ hopen, h.final⟩

/-- The work on the ticket ends, and the ticket lies elsewhere from then on. -/
theorem Tracks.end_work {failure : Option String}
    {result : Checked (Except UnknownDelivery Settlement)} {call : Option (BrokerAct Ticket)}
    (h : c.Tracks r past queue t (.inFlight tag))
    (hlies : c'.broker.Lies (calls (.ended d failure result call :: past)) queue t place)
    (hplace : ∀ tag, place ≠ .inFlight tag)
    (hbegun : place.begun (nacks t.number (calls (.ended d failure result call :: past))) =
      nacks t.number (calls past) + 1)
    (hallows : (r.retryPolicyFor queue).Allows t.message.failures
      (nacks t.number (calls (.ended d failure result call :: past))) place)
    (hsucceeds : place = .done → (WorkAct.ended d failure result call).Succeeds t.number)
    (hcloses : (WorkAct.ended d failure result call).Closes t.number →
      place = .done ∨ place = .deadLetters) :
    c'.Tracks r (.ended d failure result call :: past) queue t place := by
  have hbegins : ¬ (WorkAct.ended d failure result call).Begins t.number := by
    rintro ⟨_, hd, _⟩
    cases hd
  constructor
  case lies => exact hlies
  case attempts_eq =>
    rw [attempts_of_not_begins hbegins, hbegun]
    exact h.attempts_eq
  case allows => exact hallows
  case worked => exact fun tag htag => absurd htag (hplace tag)
  case succeeded => exact fun hdone => ⟨_, List.mem_cons_self, hsucceeds hdone⟩
  case closed =>
    rintro ⟨a, ha, hclose⟩
    rcases List.mem_cons.mp ha with rfl | ha
    · exact hcloses hclose
    · -- A ticket that is worked on is not closed.
      rcases h.closed ⟨a, ha, hclose⟩ with hin | hin <;> cases hin
  case final => exact List.pairwise_cons.mpr ⟨fun _ _ _ => hbegins, h.final⟩

/-- What is worked on lies in flight. -/
theorem Manned.mem_items (hm : c.Manned) (hd : d ∈ c.running) :
    (⟨d.message, some d.queue⟩ : Item) ∈ c.broker.items (calls past) (.inFlight d.tag) := by
  obtain ⟨deadline, hf⟩ := hm d hd
  rw [items_inFlight hf]
  exact List.mem_cons_self

/-- What is worked on under the number of the ticket is the ticket. -/
theorem Tracks.eq_of_running (h : c.Tracks r past queue t place) (hm : c.Manned)
    (hd : d ∈ c.running) (hn : d.message.number = t.number) :
    .inFlight d.tag = place ∧ d.message = t.failed (nacks t.number (calls past)) ∧
      d.queue = queue := by
  obtain ⟨hplace, hticket, hqueue⟩ := h.lies.eq_of_mem (hm.mem_items hd) hn
  exact ⟨hplace, hticket, hqueue _ rfl⟩

/-- Work on other tickets goes on. -/
theorem Manned.mem_settled (hm : c.Manned) (hd : d ∈ c.running) (hn : d.message.number ≠ n) :
    ∀ d' ∈ c.running, d'.message.number = n → d' ∈ (c.settled d b').running := by
  intro d' hd' hn'
  refine List.mem_filter.mpr ⟨hd', decide_eq_true fun htag => hn ?_⟩
  obtain ⟨deadline, hf⟩ := hm d hd
  obtain ⟨deadline', hf'⟩ := hm d' hd'
  -- One tag stands for one message.
  rw [htag, hf] at hf'
  have hmessage : d.message = d'.message := congrArg Flight.message (Option.some.inj hf')
  rw [hmessage]
  exact hn'

theorem Tracks.publish {m : Ticket} {delay : Duration} (h : c.Tracks r past queue t place)
    {name : String} (hpublish : c.broker.publish now name m delay = .ok b')
    (hfresh : m.number ≠ t.number) :
    Tracks r (.called (.published name m delay) :: past) ⟨b', c.running⟩ queue t place :=
  h.other nofun (h.lies.of_sameCopies ((publish_adds hpublish).sameCopies hfresh) rfl) rfl
    fun _ hd _ => hd

theorem Tracks.requeueAll {tags : List Nat} (h : c.Tracks r past queue t place)
    (htime : c.InTime now) (htags : tags.Perm (c.broker.expired now)) :
    (c.broker.requeueAll now tags).Lies (calls past) queue t place := by
  refine h.lies.requeueAll ?_
  rintro tag htag rfl
  obtain ⟨d, hd, rfl, -⟩ := h.worked tag rfl
  exact htime d hd (htags.mem_iff.mp htag)

theorem Tracks.receive {name : String} {tags : List Nat} {d : Option (Delivery Ticket)}
    (h : c.Tracks r past queue t place) (hs : Sound (calls past) c.broker)
    (htime : c.InTime now) (htags : tags.Perm (c.broker.expired now))
    (hdeliver : (c.broker.requeueAll now tags).deliver now name = (.ok d, b')) :
    ∃ place', Tracks r (.called (.received name d) :: past) ⟨b', d.toList ++ c.running⟩ queue t
      place' := by
  -- The late deliveries that are put back first are those of others.
  have hput := h.requeueAll htime htags
  obtain ⟨rfl, rfl⟩ | ⟨m, rest, deadline, htake, rfl, rfl⟩ := deliver_ok hdeliver
  · exact ⟨place, h.other nofun (hput.idle rfl rfl) rfl fun _ hd _ => hd⟩
  have htransfer := launch_transfer deadline htake (hs.requeueAll tags).tagged
  rcases htransfer.lies hput with ⟨hn, hnacks, hstays⟩ | ⟨hn, rfl, -, hmoved⟩
  · refine ⟨place, h.other ?_ hstays hnacks fun _ hd _ => List.mem_cons_of_mem _ hd⟩
    rintro _ ⟨⟩
    exact hn
  · obtain ⟨-, hticket, -⟩ := hput.eq_of_mem htransfer.moves.mem hn
    exact ⟨_, h.begin_work hticket hmoved List.mem_cons_self⟩

theorem Tracks.succeed {result : Except UnknownDelivery Unit}
    (h : c.Tracks r past queue t place) (hs : Sound (calls past) c.broker) (hm : c.Manned)
    (hd : d ∈ c.running) (hack : c.broker.ack d.tag = (result, b')) :
    ∃ place', (c.settled d b').Tracks r
      (.ended d none (.ok (result.map fun _ => .acked d.message.message.id))
        (some (.acked d.tag result)) :: past) queue t place' := by
  rw [hm.ack_eq hd] at hack
  cases hack
  obtain ⟨deadline, hf⟩ := hm d hd
  rcases (ack_transfer hf hs.tagged).lies h.lies with
    ⟨hn, hnacks, hstays⟩ | ⟨hn, rfl, hnacks, hmoved⟩
  · refine ⟨place, h.other ?_ hstays hnacks (hm.mem_settled hd hn)⟩
    rintro _ ⟨⟩
    exact hn
  · refine ⟨.done, h.end_work hmoved nofun ?_ ?_ (fun _ => ⟨d, _, _, rfl, hn⟩) fun _ => .inl rfl⟩
    · exact congrArg (· + 1) hnacks
    · show nacks t.number (_ :: calls past) = 0 ∨ _
      rw [hnacks]
      exact h.allows

theorem Tracks.fail {e : String} {failed : TaskMessage} {draw : Draw}
    {requeueAfter : Option Duration} {result : Except UnknownDelivery Unit}
    (h : c.Tracks r past queue t place) (hs : Sound (calls past) c.broker) (hm : c.Manned)
    (hd : d ∈ c.running) (hfailed : d.message.message.failedOnce = .ok failed)
    (hafter : (r.retryPolicyFor d.queue).after failed.failures draw = .ok requeueAfter)
    (hnack : c.broker.nack now d.tag requeueAfter = (.ok result, b')) :
    ∃ place', (c.settled d b').Tracks r
      (.ended d (some e) (.ok (result.map fun _ =>
          .ofFailure d.message.message.id failed.failures requeueAfter))
        (some (.nacked d.tag requeueAfter result)) :: past) queue t place' := by
  obtain ⟨deadline, hf⟩ := hm d hd
  obtain ⟨m, hfailedOnce, rfl, hput⟩ := hm.nack_ok hd hnack
  obtain rfl := Ticket.failedOnce_eq hfailedOnce
  have hfailures : failed.failures = d.message.message.failures + 1 :=
    TaskMessage.failures_failedOnce hfailed
  rcases (nack_transfer hf hs.tagged hput).lies h.lies with
    ⟨hn, hnacks, hstays⟩ | ⟨hn, rfl, hnacks, hmoved⟩
  · refine ⟨place, h.other ?_ hstays hnacks (hm.mem_settled hd hn)⟩
    rintro _ ⟨⟩
    exact hn
  obtain ⟨-, hmessage, rfl⟩ := h.eq_of_running hm hd hn
  have hattempt : failed.failures = t.message.failures + nacks t.number (calls past) + 1 := by
    rw [hfailures, hmessage]
    rfl
  have hbudget : nacks t.number (calls past) = 0 ∨
      t.message.failures + nacks t.number (calls past) ≤ (r.retryPolicyFor d.queue).maxRetries :=
    h.allows
  obtain ⟨hretry, delay, -, hdelay, -⟩ | ⟨hlast, hnone⟩ :=
    r.after_eq d.queue failed.failures draw
  · -- There are retries left.
    obtain rfl : requeueAfter = some delay := Except.ok.inj (hafter.symm.trans hdelay)
    refine ⟨.queue d.queue, h.end_work hmoved nofun hnacks (Or.inr ?_) nofun ?_⟩
    · show _ + nacks t.number (_ :: calls past) ≤ _
      rw [hnacks]
      omega
    · rintro (⟨_, _, _, heq, _⟩ | ⟨_, _, _, _, heq, _⟩) <;> cases heq
  · -- This was the last attempt.
    obtain rfl : requeueAfter = none := Except.ok.inj (hafter.symm.trans hnone)
    refine ⟨.deadLetters, h.end_work hmoved nofun hnacks ?_ nofun fun _ => .inr rfl⟩
    show (r.retryPolicyFor d.queue).Allows _ (nacks t.number (_ :: calls past)) .deadLetters
    rw [hnacks]
    simp only [RetryPolicy.Allows]
    omega

/-- A ticket that is worked on can count one more failure. -/
theorem Tracks.failures_lt (h : c.Tracks r past queue t (.inFlight tag))
    (hfits : t.message.failures < Text.maxWord32) :
    t.message.failures + nacks t.number (calls past) < Text.maxWord32 := by
  have hbudget : nacks t.number (calls past) = 0 ∨
      t.message.failures + nacks t.number (calls past) ≤ (r.retryPolicyFor queue).maxRetries :=
    h.allows
  have hmax := r.maxRetries_lt queue
  omega

/-- Every step leaves the ticket in one place, with its attempts numbered and its budget
    kept. -/
theorem Tracks.steps (h : c.Tracks r past queue t place) (hs : Sound (calls past) c.broker)
    (hm : c.Manned) (hfits : t.message.failures < Text.maxWord32)
    (hstep : c.Steps r Ticket.message now act c')
    (hfresh : ∀ call ∈ act.call?, ∀ p ∈ call.published?, p.2.number ≠ t.number) :
    ∃ place', c'.Tracks r (act :: past) queue t place' := by
  cases hstep with
  | publish hdoes =>
    cases hdoes with
    | publish hpublish => exact ⟨place, h.publish hpublish (hfresh _ rfl _ rfl)⟩
  | receive htime hdoes =>
    cases hdoes with
    | receive htags hdeliver => exact h.receive hs htime htags hdeliver
  | requeue htime hdoes =>
    cases hdoes with
    | requeueExpired htags =>
      have hput := h.requeueAll htime htags
      exact ⟨place, h.other nofun (hput.idle rfl rfl) rfl fun _ hd _ => hd⟩
  | succeed hd hdoes =>
    cases hdoes with
    | ack hack => exact h.succeed hs hm hd hack
  | fail hd hfailed hafter hdoes =>
    cases hdoes with
    | nack hnack => exact h.fail hs hm hd hfailed hafter hnack
  | @overflow d e o hd hfailed =>
    -- The budget is used up long before the count of failures is.
    have hn : d.message.number ≠ t.number := by
      intro hn
      obtain ⟨rfl, hmessage, -⟩ := h.eq_of_running hm hd hn
      have hlt := h.failures_lt hfits
      rw [hmessage] at hfailed
      simp only [Ticket.failed, TaskMessage.failedOnce, hlt, if_true] at hfailed
      cases hfailed
    refine ⟨place, h.other ?_ h.lies rfl (hm.mem_settled hd hn)⟩
    rintro _ ⟨⟩
    exact hn

end Crew

end ExecutionControl
