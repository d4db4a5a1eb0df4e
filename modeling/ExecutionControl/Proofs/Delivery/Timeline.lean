import ExecutionControl.Proofs.CoordinationCalls
import ExecutionControl.Proofs.Delivery.Settlement

/-! # Runs of the broker in time

    A history that also tells when each call was made and which deliveries it found late
    (`BrokerEvent`). The times never fall from one call to the next (`Broker.Passes`).

    The second half says what the calls do to the lists of messages that wait: late deliveries
    are put in front (`Broker.pending_requeueAll`), a message is published at the end
    (`Broker.publish_ok_at`), and the first one whose time has come is handed out
    (`Broker.takeVisible_eq_some`).
-/

namespace ExecutionControl

/-- A call of a broker that returned, when, and the deliveries that it found late. -/
structure BrokerEvent (α : Type) where
  time : Moment
  act : BrokerAct α
  /-- The tags of the deliveries that were put back because of their age. -/
  late : List Nat

/-- The same event on messages of another type. -/
def BrokerEvent.map {α β : Type} (f : α → β) (e : BrokerEvent α) : BrokerEvent β :=
  ⟨e.time, e.act.map f, e.late⟩

namespace Broker

variable {α β : Type}

/-- The calls of a history. -/
def acts (past : List (BrokerEvent α)) : List (BrokerAct α) := past.map (·.act)

theorem acts_cons (e : BrokerEvent α) (past : List (BrokerEvent α)) :
    acts (e :: past) = e.act :: acts past := rfl

/-- The deliveries that a call finds late. -/
def lateFor (b : Broker α) (now : Moment) : BrokerAct α → List Nat
  | .received _ _ => b.expired now
  | .requeued _ => b.expired now
  | _ => []

/-- Nothing in a history is later than a time. -/
def Until (past : List (BrokerEvent α)) (now : Moment) : Prop := ∀ e ∈ past, e.time ≤ now

theorem Until.mono {past : List (BrokerEvent α)} {now later : Moment} (h : Until past now)
    (hle : now ≤ later) : Until past later :=
  fun e he => Nat.le_trans (h e he) hle

/-- A run at times that never fall, the latest event first. -/
inductive Passes [CountsFailures α] (visibility : Duration) :
    List (BrokerEvent α) → Broker α → Prop
  | start : Passes visibility [] { visibility }
  | call {past b now act b'} (h : Passes visibility past b) (htime : Until past now)
      (hdoes : b.Does now act b') : Passes visibility (⟨now, act, b.lateFor now act⟩ :: past) b'

section Timeline

variable [CountsFailures α] {visibility : Duration} {past past' : List (BrokerEvent α)}
  {b b' : Broker α} {now : Moment}

/-- A run in time is a run. -/
theorem Passes.runs (h : Passes visibility past b) : Runs visibility (acts past) b := by
  induction h with
  | start => exact .start
  | call _ _ hdoes ih => exact ih.call hdoes

/-- Make calls one after another at these times; gives back the history that they extend. -/
def follow (b : Broker α) (past : List (BrokerEvent α)) :
    List (Moment × BrokerCall α) → Checked (List (BrokerEvent α) × Broker α)
  | [] => .ok (past, b)
  | (now, call) :: calls =>
    match b.perform now call with
    | .error e => .error e
    | .ok (act, b') => b'.follow (⟨now, act, b.lateFor now act⟩ :: past) calls

/-- Calls at times that never fall lead from one run to another. -/
theorem Passes.follow {calls : List (Moment × BrokerCall α)} (h : Passes visibility past b)
    (htime : Until past now) (hcalls : (now :: calls.map (·.1)).Pairwise (· ≤ ·))
    (hfollow : b.follow past calls = .ok (past', b')) : Passes visibility past' b' := by
  fun_induction Broker.follow b past calls generalizing now with
  | case1 =>
    cases hfollow
    exact h
  | case2 => cases hfollow
  | case3 b past time call calls act after hperform ih =>
    obtain ⟨hle, hrest⟩ := List.pairwise_cons.mp hcalls
    have hnow : now ≤ time := hle time List.mem_cons_self
    refine ih (h.call (htime.mono hnow) (does_of_perform hperform)) ?_ hrest hfollow
    intro e he
    rcases List.mem_cons.mp he with he | he
    · exact he ▸ Nat.le_refl time
    · exact htime.mono hnow e he

end Timeline

/-! ### Runs over tickets -/

theorem lateFor_map {f : α → β} {b : Broker α} {now : Moment} (act : BrokerAct α) :
    (b.map f).lateFor now (act.map f) = b.lateFor now act := by
  cases act with
  | received => exact map_expired
  | requeued => exact map_expired
  | _ => rfl

/-- Every run over messages in time is a run over tickets in time with the numbers taken away, in
    which no two messages that were published have the same number. -/
theorem Passes.ticketed {visibility : Duration} {past : List (BrokerEvent TaskMessage)}
    {b : Broker TaskMessage} (h : Passes visibility past b) :
    ∃ Past B, Passes visibility Past B ∧ (numbers (acts Past)).Nodup ∧
      Past.map (BrokerEvent.map Ticket.message) = past ∧ B.map Ticket.message = b := by
  -- The length of the history is a number that the history has not given yet.
  suffices hlt : ∃ Past B, Passes visibility Past B ∧
      ((numbers (acts Past)).Nodup ∧ ∀ n ∈ numbers (acts Past), n < Past.length) ∧
      Past.map (BrokerEvent.map Ticket.message) = past ∧ B.map Ticket.message = b by
    obtain ⟨Past, B, hpasses, ⟨hnodup, -⟩, hpast, hb⟩ := hlt
    exact ⟨Past, B, hpasses, hnodup, hpast, hb⟩
  induction h with
  | start => exact ⟨[], { visibility }, .start, ⟨List.nodup_nil, nofun⟩, rfl, map_start visibility⟩
  | call h htime hdoes ih =>
    obtain ⟨Past, B, hpasses, ⟨hnodup, hlt⟩, rfl, rfl⟩ := ih
    obtain ⟨Act, B', hDoes, rfl, rfl, hnumber⟩ := hdoes.ticketed Past.length
    have hTime : Until Past _ := fun e he => htime _ (List.mem_map_of_mem he)
    refine ⟨_ :: Past, B', hpasses.call hTime hDoes, numbers_next hnodup hlt hnumber, ?_, rfl⟩
    rw [List.map_cons, BrokerEvent.map, lateFor_map]

/-! ### Waiting messages -/

section Waiting

variable {b b' : Broker α} {now : Moment} {queue : String} {tag : Nat} {tags : List Nat}

theorem publish_ok_at {m : α} {delay : Duration} (h : b.publish now queue m delay = .ok b') :
    b' = b.setPending queue (b.pending queue ++ [⟨m, now + delay.nanos⟩]) := by
  unfold publish at h
  cases hafter : now.after delay with
  | error _ => rw [hafter] at h; cases h
  | ok visibleAt =>
    rw [hafter] at h
    cases h
    rw [Moment.after_eq_ok hafter]

/-- What waits on a queue once a delivery is put back, if it came from this queue. -/
def backOn (b : Broker α) (now : Moment) (queue : String) (tag : Nat) : Option (Pending α) :=
  b.inFlight[tag]?.bind fun f => if f.queue = queue then some ⟨f.message, now⟩ else none

theorem backOn_eq_some {p : Pending α} :
    b.backOn now queue tag = some p ↔
      ∃ f, b.inFlight[tag]? = some f ∧ f.queue = queue ∧ p = ⟨f.message, now⟩ := by
  unfold backOn
  rw [Option.bind_eq_some_iff]
  refine exists_congr fun f => and_congr_right fun _ => ?_
  split <;> simp_all [eq_comm]

theorem pending_requeue :
    (b.requeue now tag).pending queue = (b.backOn now queue tag).toList ++ b.pending queue := by
  unfold backOn
  cases hf : b.inFlight[tag]? with
  | none => simp only [requeue, hf]; rfl
  | some f =>
    rw [requeue_eq hf]
    simp only [Option.bind_some]
    split
    · rename_i heq
      rw [← heq, pending_setPending_self]
      rfl
    · rename_i hne
      rw [pending_setPending_of_ne _ _ (Ne.symm hne)]
      rfl

/-- Deliveries that are put back stand in front of everything that waited, in the order of their
    tags. -/
theorem pending_requeueAll (htags : tags.Nodup) :
    (b.requeueAll now tags).pending queue =
      tags.filterMap (b.backOn now queue) ++ b.pending queue := by
  induction tags with
  | nil => rfl
  | cons tag tags ih =>
    obtain ⟨htag, hrest⟩ := List.nodup_cons.mp htags
    -- The tags that are put back before leave this one in flight.
    have hback : (b.requeueAll now tags).backOn now queue tag = b.backOn now queue tag := by
      unfold backOn
      rw [inFlight_requeueAll, if_neg htag]
    show ((b.requeueAll now tags).requeue now tag).pending queue = _
    rw [pending_requeue, ih hrest, hback, List.filterMap_cons]
    cases b.backOn now queue tag <;> rfl

/-- A delivery of a message is late that came from this queue. -/
def Late (b : Broker α) (now : Moment) (queue : String) (m : α) : Prop :=
  ∃ (tag : Nat) (f : Flight α), b.inFlight[tag]? = some f ∧ f.deadline ≤ now ∧
    f.queue = queue ∧ f.message = m

/-- Late deliveries are put in front of everything that waited on their queue, to be handed out
    at once. -/
theorem pending_of_late (htags : tags.Perm (b.expired now)) (queue : String) :
    ∃ front, (b.requeueAll now tags).pending queue = front ++ b.pending queue ∧
      ∀ p, p ∈ front ↔ b.Late now queue p.message ∧ p.visibleAt = now := by
  have hnodup : tags.Nodup := htags.nodup_iff.mpr (nodup_expired b now)
  refine ⟨tags.filterMap (b.backOn now queue), pending_requeueAll hnodup, ?_⟩
  intro p
  rw [List.mem_filterMap]
  constructor
  · intro hp
    obtain ⟨tag, htag, hback⟩ := hp
    obtain ⟨f, hf, hqueue, rfl⟩ := backOn_eq_some.mp hback
    obtain ⟨f', hf', hlate⟩ := mem_expired.mp (htags.mem_iff.mp htag)
    cases hf.symm.trans hf'
    exact ⟨⟨tag, f, hf, hlate, hqueue, rfl⟩, rfl⟩
  · intro hp
    obtain ⟨⟨tag, f, hf, hlate, hqueue, hm⟩, hvisible⟩ := hp
    have htag : tag ∈ tags := htags.mem_iff.mpr (mem_expired.mpr ⟨f, hf, hlate⟩)
    have hback : p = ⟨f.message, now⟩ := by
      rw [hm, ← hvisible]
    exact ⟨tag, htag, backOn_eq_some.mpr ⟨f, hf, hqueue, hback⟩⟩

/-- The message that is taken is the first one whose time has come. -/
theorem takeVisible_eq_some {ps rest : List (Pending α)} {m : α}
    (h : takeVisible now ps = some (m, rest)) :
    ∃ before p after, ps = before ++ p :: after ∧ (∀ q ∈ before, now < q.visibleAt) ∧
      p.visibleAt ≤ now ∧ m = p.message ∧ rest = before ++ after := by
  fun_induction takeVisible now ps generalizing rest with
  | case1 => cases h
  | case2 p ps hvisible =>
    cases h
    exact ⟨[], p, ps, rfl, List.forall_mem_nil _, hvisible, rfl, rfl⟩
  | case3 p ps hvisible ih =>
    obtain ⟨r, hr, heq⟩ := Option.map_eq_some_iff.mp h
    cases heq
    obtain ⟨before, q, after, rfl, hbefore, hq, hm, hrest⟩ := ih hr
    refine ⟨p :: before, q, after, rfl, ?_, hq, hm, congrArg (p :: ·) hrest⟩
    intro q' hq'
    rcases List.mem_cons.mp hq' with hfirst | hq'
    · exact hfirst ▸ Nat.lt_of_not_le hvisible
    · exact hbefore q' hq'

/-- Nothing is taken if and only if no time has come. -/
theorem takeVisible_eq_none {ps : List (Pending α)} :
    takeVisible now ps = none ↔ ∀ p ∈ ps, now < p.visibleAt := by
  fun_induction takeVisible now ps with
  | case1 => simp
  | case2 p ps hvisible =>
    simp only [reduceCtorEq, List.mem_cons, forall_eq_or_imp, false_iff, not_and_or]
    exact .inl (Nat.not_lt.mpr hvisible)
  | case3 p ps hvisible ih =>
    simp only [Option.map_eq_none_iff, ih, List.mem_cons, forall_eq_or_imp]
    exact (and_iff_right (Nat.lt_of_not_le hvisible)).symm

/-- A call hands nothing out if and only if nothing waits whose time has come. -/
theorem deliver_eq_none {d : Option (Delivery α)} (h : b.deliver now queue = (.ok d, b')) :
    d = none ↔ ∀ p ∈ b.pending queue, now < p.visibleAt := by
  rw [← takeVisible_eq_none]
  obtain ⟨hd, -⟩ | ⟨m, rest, deadline, htake, hd, -⟩ := deliver_ok h
  · subst hd
    simp only [true_iff]
    unfold deliver at h
    cases htake : takeVisible now (b.pending queue) with
    | none => rfl
    | some r =>
      rw [htake] at h
      cases hout : (b.setPending queue r.2).handOut now queue r.1 with
      | mk result after =>
        simp only [hout] at h
        cases result <;> cases h
  · rw [htake, hd]
    simp only [reduceCtorEq]

end Waiting

end Broker

end ExecutionControl
