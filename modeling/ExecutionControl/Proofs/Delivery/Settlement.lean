import ExecutionControl.Proofs.Delivery.Calls
import Mathlib.Data.List.Nodup

/-! # A delivery is settled once

    A tag stands for one delivery. The delivery is settled by the first call that
    acknowledges it, hands it back or finds it late, and by no other: its tag is in flight
    from the call that handed it out to that call, and never again. A worker that comes too
    late with its tag meets `Inert`, and so cannot touch the message that was handed to
    somebody else in the meantime.

    `Settles` is a run together with the tags that its calls settled. The invariant that
    carries `settled_once` is `Accounts`: the tags in flight are those that were handed out
    and are not settled.
-/

namespace ExecutionControl

/-- The tag of the delivery that a call handed out. -/
def BrokerAct.tag? {α : Type} : BrokerAct α → Option Nat
  | .received _ (some d) => some d.tag
  | _ => none

namespace Broker

variable {α : Type}

/-- The tags of the deliveries that a history handed out, the latest first. -/
def handedOut (past : List (BrokerAct α)) : List Nat := past.filterMap BrokerAct.tag?

/-- The tags that a call settles: the one that it acknowledges or hands back, or those of the
    deliveries that it finds late. -/
def settledBy (b : Broker α) (now : Moment) : BrokerAct α → List Nat
  | .acked tag (.ok _) => [tag]
  | .nacked tag _ (.ok _) => [tag]
  | .received _ _ => b.expired now
  | .requeued _ => b.expired now
  | _ => []

/-- A run with the tags that its calls settled, the latest first. -/
inductive Settles [CountsFailures α] (visibility : Duration) :
    List (BrokerAct α) → List Nat → Broker α → Prop
  | start : Settles visibility [] [] { visibility }
  | call {past settled b now act b'} (h : Settles visibility past settled b)
      (hdoes : b.Does now act b') :
      Settles visibility (act :: past) (b.settledBy now act ++ settled) b'

/-- No call changes anything by this tag. -/
structure Inert [CountsFailures α] (b : Broker α) (tag : Nat) : Prop where
  ack_eq : b.ack tag = (.error ⟨tag⟩, b)
  nack_eq : ∀ now requeueAfter, b.nack now tag requeueAfter = (.ok (.error ⟨tag⟩), b)
  notMem_expired : ∀ now, tag ∉ b.expired now

/-- The next call aimed at a tag in flight settles it, whichever call that is. -/
structure TakesEffect (b : Broker TaskMessage) (tag : Nat) (f : Flight TaskMessage) : Prop where
  /-- An acknowledgement ends the delivery. -/
  ack_eq : b.ack tag = (.ok (), b.land tag)
  /-- A message that is handed back counts one more failure, and waits again or is given up. -/
  nack_eq : ∀ now requeueAfter, f.message.failures < Text.maxWord32 →
    (∀ delay ∈ requeueAfter, now + delay.nanos < Moment.bound) →
    ∃ b', b.nack now tag requeueAfter = (.ok (.ok ()), b') ∧ tag ∉ b'.inFlight ∧
      (b.land tag).putBack now f.queue { f.message with failures := f.message.failures + 1 }
        requeueAfter = .ok b'
  /-- Even a call that overflows ends the delivery. -/
  nack_overflow : ∀ now requeueAfter o b', b.nack now tag requeueAfter = (.error o, b') →
    b' = b.land tag
  /-- A delivery whose time is up is late, and is put back with all that are. -/
  late : ∀ now, f.deadline ≤ now →
    tag ∈ b.expired now ∧ ∀ tags, tags.Perm (b.expired now) →
      tag ∉ (b.requeueAll now tags).inFlight

/-- What the tags of a history say of the tags in flight. -/
structure Accounts (past : List (BrokerAct α)) (settled : List Nat) (b : Broker α) : Prop where
  handedOut_nodup : (handedOut past).Nodup
  settled_nodup : settled.Nodup
  settled_subset : settled ⊆ handedOut past
  inFlight_iff : ∀ tag, tag ∈ b.inFlight ↔ tag ∈ handedOut past ∧ tag ∉ settled
  le_lastTag : ∀ tag ∈ handedOut past, tag ≤ b.lastTag

variable {b b' : Broker α} {now : Moment} {queue : String} {tag other : Nat} {tags : List Nat}
  {past past' : List (BrokerAct α)} {settled : List Nat}

/-! ### Late deliveries -/

theorem mem_expired :
    tag ∈ b.expired now ↔ ∃ f, b.inFlight[tag]? = some f ∧ f.deadline ≤ now := by
  simp [expired, Std.ExtTreeMap.mem_toList_iff_getElem?_eq_some]

theorem nodup_expired (b : Broker α) (now : Moment) : (b.expired now).Nodup := by
  have hkeys : (b.inFlight.toList.map (·.1)).Nodup := by
    rw [Std.ExtTreeMap.map_fst_toList_eq_keys]
    exact Std.ExtTreeMap.nodup_keys
  exact hkeys.sublist (List.filter_sublist.map _)

theorem inFlight_requeue (other : Nat) :
    (b.requeue now tag).inFlight[other]? = if tag = other then none else b.inFlight[other]? := by
  cases hf : b.inFlight[tag]? with
  | none =>
    simp only [requeue, hf]
    split
    · rename_i heq
      rw [← heq, hf]
    · rfl
  | some f =>
    rw [requeue_eq hf, inFlight_setPending, inFlight_land]

theorem inFlight_requeueAll (b : Broker α) (now : Moment) (tags : List Nat) (other : Nat) :
    (b.requeueAll now tags).inFlight[other]?
      = if other ∈ tags then none else b.inFlight[other]? := by
  induction tags with
  | nil => rfl
  | cons tag tags ih =>
    show ((b.requeueAll now tags).requeue now tag).inFlight[other]? = _
    rw [inFlight_requeue, ih]
    by_cases heq : tag = other
    · simp [heq]
    · simp [heq, Ne.symm heq]

theorem mem_inFlight : tag ∈ b.inFlight ↔ ∃ f, b.inFlight[tag]? = some f := by
  rw [Std.ExtTreeMap.mem_iff_isSome_getElem?, Option.isSome_iff_exists]

theorem mem_inFlight_of_mem_expired (h : tag ∈ b.expired now) : tag ∈ b.inFlight := by
  obtain ⟨f, hf, -⟩ := mem_expired.mp h
  exact mem_inFlight.mpr ⟨f, hf⟩

/-- A tag that is not in flight settles nothing. -/
theorem inert_of_notMem [CountsFailures α] (h : tag ∉ b.inFlight) : b.Inert tag := by
  have hnone : b.inFlight[tag]? = none := Std.ExtTreeMap.getElem?_eq_none h
  constructor
  · simp only [ack, hnone]
  · intro now requeueAfter
    simp only [nack, hnone]
  · intro now hlate
    exact h (mem_inFlight_of_mem_expired hlate)

theorem notMem_inFlight_land (b : Broker α) (tag : Nat) : tag ∉ (b.land tag).inFlight := by
  rw [mem_inFlight, inFlight_land, if_pos rfl]
  exact nofun

/-- Whatever is aimed at a tag in flight settles it. -/
theorem takesEffect_of_inFlight {b : Broker TaskMessage} {f : Flight TaskMessage}
    (hf : b.inFlight[tag]? = some f) : b.TakesEffect tag f := by
  constructor
  case ack_eq => simp only [ack, hf]
  case nack_eq =>
    intro now requeueAfter hfailures hdelay
    have hfailed : CountsFailures.failedOnce f.message =
        .ok { f.message with failures := f.message.failures + 1 } := if_pos hfailures
    obtain ⟨result, b', hnack⟩ : ∃ result b', b.nack now tag requeueAfter = (.ok result, b') := by
      apply nack_returns hdelay
      intro f' hf'
      rw [hf] at hf'
      cases hf'
      exact ⟨_, hfailed⟩
    obtain ⟨m, hm, rfl, hput⟩ := nack_ok_of_inFlight hf hnack
    cases hfailed.symm.trans hm
    refine ⟨b', hnack, ?_, hput⟩
    rw [(putBack_frame hput).1]
    exact notMem_inFlight_land b tag
  case nack_overflow =>
    intro now requeueAfter o b' hnack
    simp only [nack, hf] at hnack
    split at hnack
    · cases hnack
      rfl
    · cases hnack
  case late =>
    intro now hdeadline
    have hlate : tag ∈ b.expired now := mem_expired.mpr ⟨f, hf, hdeadline⟩
    refine ⟨hlate, fun tags htags => ?_⟩
    rw [mem_inFlight, inFlight_requeueAll, if_pos (htags.mem_iff.mpr hlate)]
    simp

/-! ### Accounts -/

theorem Accounts.start (visibility : Duration) :
    Accounts [] [] ({ visibility } : Broker α) where
  handedOut_nodup := List.nodup_nil
  settled_nodup := List.nodup_nil
  settled_subset := List.Subset.refl _
  inFlight_iff tag := by simp [handedOut]
  le_lastTag tag htag := by simp [handedOut] at htag

/-- A call that hands nothing out and settles some deliveries that were in flight. -/
theorem Accounts.settle (h : Accounts past settled b) (tags : List Nat)
    (hpast : handedOut past' = handedOut past)
    (hin : ∀ other, b'.inFlight[other]? = if other ∈ tags then none else b.inFlight[other]?)
    (hlast : b'.lastTag = b.lastTag) (hnodup : tags.Nodup)
    (hflying : ∀ tag ∈ tags, tag ∈ b.inFlight) :
    Accounts past' (tags ++ settled) b' where
  handedOut_nodup := by
    rw [hpast]
    exact h.handedOut_nodup
  settled_nodup := by
    refine List.nodup_append.mpr ⟨hnodup, h.settled_nodup, ?_⟩
    -- What is settled already is not in flight.
    rintro tag htag _ hsettled rfl
    exact ((h.inFlight_iff tag).mp (hflying tag htag)).2 hsettled
  settled_subset := by
    intro tag htag
    rw [hpast]
    rcases List.mem_append.mp htag with hnew | hold
    · exact ((h.inFlight_iff tag).mp (hflying tag hnew)).1
    · exact h.settled_subset hold
  inFlight_iff tag := by
    have hiff := h.inFlight_iff tag
    rw [mem_inFlight] at hiff ⊢
    rw [hin, hpast, List.mem_append]
    by_cases htag : tag ∈ tags
    · simp [htag]
    · simp only [htag, if_false, false_or]
      exact hiff
  le_lastTag tag htag := by
    rw [hpast] at htag
    rw [hlast]
    exact h.le_lastTag tag htag

/-- A call that settles nothing and hands nothing out. -/
theorem Accounts.idle (h : Accounts past settled b) (hpast : handedOut past' = handedOut past)
    (hin : b'.inFlight = b.inFlight) (hlast : b'.lastTag = b.lastTag) :
    Accounts past' settled b' :=
  h.settle [] hpast (fun other => by rw [hin]; simp) hlast List.nodup_nil nofun

/-- A delivery in flight that lands is settled. -/
theorem Accounts.land {f : Flight α} (h : Accounts past settled b)
    (hf : b.inFlight[tag]? = some f) (hpast : handedOut past' = handedOut past)
    (hin : b'.inFlight = (b.land tag).inFlight) (hlast : b'.lastTag = b.lastTag) :
    Accounts past' (tag :: settled) b' := by
  refine h.settle [tag] hpast ?_ hlast (List.nodup_singleton tag) ?_
  · intro other
    rw [hin, inFlight_land]
    simp only [List.mem_singleton, eq_comm]
  · intro other hother
    rw [List.mem_singleton.mp hother]
    exact mem_inFlight.mpr ⟨f, hf⟩

/-- The tag of a delivery that is handed out was never used before. -/
theorem Accounts.launch {m : α} {rest : List (Pending α)} {deadline : Moment}
    (h : Accounts past settled b) :
    Accounts (.received queue (some ⟨b.lastTag + 1, queue, m⟩) :: past) settled
      ((b.setPending queue rest).launch queue m deadline) := by
  have hpast : handedOut (.received queue (some ⟨b.lastTag + 1, queue, m⟩) :: past)
      = (b.lastTag + 1) :: handedOut past := rfl
  -- Tags only grow.
  have hfresh : b.lastTag + 1 ∉ handedOut past := by
    intro hmem
    have := h.le_lastTag _ hmem
    omega
  constructor
  case handedOut_nodup =>
    rw [hpast]
    exact List.nodup_cons.mpr ⟨hfresh, h.handedOut_nodup⟩
  case settled_nodup => exact h.settled_nodup
  case settled_subset =>
    rw [hpast]
    exact fun tag htag => List.mem_cons_of_mem _ (h.settled_subset htag)
  case inFlight_iff =>
    intro tag
    have hiff := h.inFlight_iff tag
    rw [mem_inFlight] at hiff ⊢
    rw [inFlight_launch, hpast, List.mem_cons]
    by_cases htag : b.lastTag + 1 = tag
    · subst htag
      have hopen : b.lastTag + 1 ∉ settled := fun hmem => hfresh (h.settled_subset hmem)
      simp [hopen]
    · simp only [htag, if_false, Ne.symm htag, false_or]
      exact hiff
  case le_lastTag =>
    intro tag htag
    show tag ≤ b.lastTag + 1
    rw [hpast] at htag
    rcases List.mem_cons.mp htag with rfl | hold
    · exact Nat.le_refl _
    · have := h.le_lastTag tag hold
      omega

/-- The deliveries that are late are settled when they are put back, in whatever order. -/
theorem Accounts.requeueAll (h : Accounts past settled b) (htags : tags.Perm (b.expired now))
    (hpast : handedOut past' = handedOut past) :
    Accounts past' (b.expired now ++ settled) (b.requeueAll now tags) := by
  refine h.settle (b.expired now) hpast ?_ (requeueAll_frame b now tags).2 (nodup_expired b now) ?_
  · intro other
    rw [inFlight_requeueAll]
    simp only [htags.mem_iff]
  · exact fun tag htag => mem_inFlight_of_mem_expired htag

variable [CountsFailures α]

/-- Every call keeps the accounts. -/
theorem Accounts.does {act : BrokerAct α} (h : Accounts past settled b)
    (hdoes : b.Does now act b') :
    Accounts (act :: past) (b.settledBy now act ++ settled) b' := by
  cases hdoes with
  | publish hpublish =>
    obtain ⟨visibleAt, rfl⟩ := publish_ok hpublish
    exact h.idle rfl rfl rfl
  | @receive queue d tags _ htags hdeliver =>
    have hput : Accounts past (b.expired now ++ settled) (b.requeueAll now tags) :=
      h.requeueAll htags rfl
    obtain ⟨rfl, rfl⟩ | ⟨m, rest, deadline, -, rfl, rfl⟩ := deliver_ok hdeliver
    · exact hput.idle rfl rfl rfl
    · exact hput.launch
  | @ack tag result _ hack =>
    unfold ack at hack
    cases hf : b.inFlight[tag]? with
    | none =>
      rw [hf] at hack
      cases hack
      exact h.idle rfl rfl rfl
    | some f =>
      rw [hf] at hack
      cases hack
      exact h.land hf rfl rfl rfl
  | @nack tag requeueAfter result _ hnack =>
    obtain ⟨rfl, rfl⟩ | ⟨f, m, hf, -, rfl, hput⟩ := nack_ok hnack
    · exact h.idle rfl rfl rfl
    · obtain ⟨hin, -, hlast⟩ := putBack_frame hput
      exact h.land hf rfl hin hlast
  | requeueExpired htags => exact h.requeueAll htags rfl

theorem Settles.accounts {visibility : Duration} (h : Settles visibility past settled b) :
    Accounts past settled b := by
  induction h with
  | start => exact .start visibility
  | call _ hdoes ih => exact ih.does hdoes

/-- Every run has its tags. -/
theorem Runs.settles {visibility : Duration} (h : Runs visibility past b) :
    ∃ settled, Settles visibility past settled b := by
  induction h with
  | start => exact ⟨[], .start⟩
  | call _ hdoes ih =>
    obtain ⟨settled, hsettles⟩ := ih
    exact ⟨_, hsettles.call hdoes⟩

/-- No tag in flight is later than the last one. -/
theorem Runs.le_lastTag {visibility : Duration} (h : Runs visibility past b)
    (htag : tag ∈ b.inFlight) : tag ≤ b.lastTag := by
  obtain ⟨settled, hsettles⟩ := h.settles
  have haccounts := hsettles.accounts
  exact haccounts.le_lastTag tag ((haccounts.inFlight_iff tag).mp htag).1

/-- A delivery is settled at most once. In every run, a tag that is handed out was never used
    before; no tag is settled twice; the tags in flight are those that were handed out and
    are not settled; the next call aimed at one of them takes effect; and by a tag that is
    settled no call changes anything any more, be it that the message is in somebody else's
    hands by then. Every call returns, unless a number leaves its range. -/
theorem settled_once (visibility : Duration) :
    (∀ (past : List (BrokerAct TaskMessage)) (b : Broker TaskMessage),
      Runs visibility past b → ∃ settled, Settles visibility past settled b) ∧
    (∀ (past : List (BrokerAct TaskMessage)) (settled : List Nat) (b : Broker TaskMessage),
      Settles visibility past settled b →
      (handedOut past).Nodup ∧ settled.Nodup ∧
      (∀ tag, tag ∈ b.inFlight ↔ tag ∈ handedOut past ∧ tag ∉ settled) ∧
      (∀ tag ∈ handedOut past, tag ∉ settled →
        ∃ f, b.inFlight[tag]? = some f ∧ b.TakesEffect tag f) ∧
      ∀ tag ∈ settled, b.Inert tag) ∧
    ∀ (past : List (BrokerAct TaskMessage)) (b : Broker TaskMessage), Runs visibility past b →
      ∀ now call, Fits visibility past b now call →
        ∃ act b', b.perform now call = .ok (act, b') := by
  refine ⟨fun past b h => h.settles, fun past settled b h => ?_,
    fun past b h now call hfits => h.perform_returns hfits⟩
  have haccounts := h.accounts
  refine ⟨haccounts.handedOut_nodup, haccounts.settled_nodup, haccounts.inFlight_iff, ?_, ?_⟩
  · intro tag hout hopen
    obtain ⟨f, hf⟩ := mem_inFlight.mp ((haccounts.inFlight_iff tag).mpr ⟨hout, hopen⟩)
    exact ⟨f, hf, takesEffect_of_inFlight hf⟩
  · intro tag htag
    apply inert_of_notMem
    intro hflying
    exact ((haccounts.inFlight_iff tag).mp hflying).2 htag

/-- A delivery times out, and its message is handed to a second worker. -/
def handedOutAgain : Checked (List (BrokerAct TaskMessage) × Broker TaskMessage) :=
  Broker.play { visibility := .seconds 5 } []
    [(0, .publish "q" ⟨"m", "t", .null, none, 0⟩ .zero), (0, .receive "q"),
      (10000000000, .receive "q")]

/-- The first worker comes too late with its tag; the second one holds the message, and can
    settle it. -/
theorem settled_once_late :
    ∃ (past : List (BrokerAct TaskMessage)) (settled : List Nat) (b : Broker TaskMessage),
      Settles (.seconds 5) past settled b ∧ handedOut past = [2, 1] ∧
      settled.Nodup ∧ 1 ∈ settled ∧ b.Inert 1 ∧ 2 ∈ b.inFlight ∧
      b.ack 2 = (.ok (), b.land 2) ∧
      ∃ act b', b.perform 11000000000 (.ack 1) = .ok (act, b') := by
  have hresult : handedOutAgain.toOption.map (fun r => (handedOut r.1,
      decide (1 ∈ r.2.inFlight), decide (2 ∈ r.2.inFlight))) = some ([2, 1], false, true) := by
    decide +kernel
  have hplay : ∀ r, handedOutAgain = .ok r → Runs (.seconds 5) r.1 r.2 :=
    fun r hr => Runs.start.play hr
  -- The run is not computed any further.
  generalize handedOutAgain = result at hresult hplay
  rcases result with _ | ⟨past, b⟩
  · cases hresult
  have hfields := Option.some.inj hresult
  simp only [Prod.mk.injEq] at hfields
  obtain ⟨htags, hlanded, hflies⟩ := hfields
  have hruns := hplay _ rfl
  obtain ⟨settled, hsettles⟩ := (settled_once _).1 past b hruns
  obtain ⟨-, hnodup, hiff, heffect, hinert⟩ := (settled_once _).2.1 past settled b hsettles
  have hone : 1 ∈ settled := by
    by_contra hopen
    have hflying : 1 ∈ b.inFlight := (hiff 1).mpr ⟨by rw [htags]; decide, hopen⟩
    exact of_decide_eq_false hlanded hflying
  have hflying : 2 ∈ b.inFlight := of_decide_eq_true hflies
  obtain ⟨hout, hopen⟩ := (hiff 2).mp hflying
  obtain ⟨f, -, htakes⟩ := heffect 2 hout hopen
  refine ⟨past, settled, b, hsettles, htags, hnodup, hone, hinert 1 hone, hflying,
    htakes.ack_eq, ?_⟩
  exact (settled_once _).2.2 past b hruns 11000000000 (.ack 1) trivial

end Broker

end ExecutionControl
