import ExecutionControl.Proofs.Delivery.Places

/-! # No message is lost or duplicated

    Whatever is published lies in exactly one place from then on: it waits in one queue,
    once, or is in flight under one tag, or was given up, once, or is gone because a
    delivery of it was acknowledged. While it waits or is in flight it is on the queue that
    it was published to. Nothing about it changes but the count of its failures, which
    grows by one with every delivery that is handed back and with nothing else: a delivery
    that times out leaves it alone.

    The broker forgets what was acknowledged, and a delivery is settled by its tag alone.
    So the history of the calls says which ticket a tag stands for (`delivered`), which
    tickets are done with (`done`) and how often a ticket was handed back (`nacks`).
-/

namespace ExecutionControl

namespace Broker

/-! ### What a history says -/

/-- The delivery that was handed out under a tag. -/
def delivered (tag : Nat) : List (BrokerAct Ticket) → Option (Delivery Ticket)
  | [] => none
  | .received _ (some d) :: past => if d.tag = tag then some d else delivered tag past
  | _ :: past => delivered tag past

/-- The tickets of the deliveries that were acknowledged. -/
def done : List (BrokerAct Ticket) → List Ticket
  | [] => []
  | .acked tag (.ok _) :: past => ((delivered tag past).map (·.message)).toList ++ done past
  | _ :: past => done past

/-- How many deliveries of a ticket were handed back. -/
def nacks (n : Nat) : List (BrokerAct Ticket) → Nat
  | [] => 0
  | .nacked tag _ (.ok _) :: past =>
    nacks n past + if n ∈ (delivered tag past).map (·.message.number) then 1 else 0
  | _ :: past => nacks n past

/-- What lies where, in a broker and by the history of its calls. -/
def items (b : Broker Ticket) (past : List (BrokerAct Ticket)) : Layout
  | .queue name => (b.pending name).map fun p => ⟨p.message, some name⟩
  | .inFlight tag => (b.inFlight[tag]?.map fun f => (⟨f.message, some f.queue⟩ : Item)).toList
  | .deadLetters => b.deadLetters.map (⟨·, none⟩)
  | .done => (done past).map (⟨·, none⟩)

/-- A ticket that was published to a queue lies in one place only, once, with as many more
    failures as it was handed back, and on no other queue. -/
def Lies (b : Broker Ticket) (past : List (BrokerAct Ticket)) (queue : String) (t : Ticket)
    (place : Place) : Prop :=
  ∃ q : Option String, (b.items past).Sole ⟨t.failed (nacks t.number past), q⟩ place ∧
    ∀ name ∈ q, name = queue

/-- Every ticket that was published lies in one place only, and there are no others. -/
structure Conserved (past : List (BrokerAct Ticket)) (b : Broker Ticket) : Prop where
  lies : ∀ p ∈ publications past, ∃ place, b.Lies past p.1 p.2 place
  absent : ∀ n, n ∉ numbers past → (b.items past).Absent n
  nacks_eq_zero : ∀ n, n ∉ numbers past → nacks n past = 0

/-- The history knows the deliveries in flight, none of which has a later tag than the last
    one. -/
structure Tagged (past : List (BrokerAct Ticket)) (b : Broker Ticket) : Prop where
  le_lastTag : ∀ tag f, b.inFlight[tag]? = some f → tag ≤ b.lastTag
  delivered_eq : ∀ tag f, b.inFlight[tag]? = some f →
    delivered tag past = some ⟨tag, f.queue, f.message⟩

/-- What every call keeps up. -/
structure Sound (past : List (BrokerAct Ticket)) (b : Broker Ticket) : Prop where
  conserved : Conserved past b
  tagged : Tagged past b

/-! ### Moving a ticket -/

/-- A call, or a part of one, moves a ticket from one place to another, and the history
    gains `k` failures of it. -/
structure Transfer (past : List (BrokerAct Ticket)) (b : Broker Ticket)
    (past' : List (BrokerAct Ticket)) (b' : Broker Ticket)
    (src : Place) (i : Item) (dst : Place) (i' : Item) (k : Nat) : Prop where
  moves : (b.items past).Moves (b'.items past') src i dst i'
  ticket_eq : i'.ticket = i.ticket.failed k
  queue_le : ∀ name ∈ i'.queue, name ∈ i.queue
  publications_eq : publications past' = publications past
  nacks_eq : ∀ n, nacks n past' = nacks n past + if n = i.number then k else 0

variable {past past' : List (BrokerAct Ticket)} {b b' : Broker Ticket} {now : Moment}
  {src dst place : Place} {i i' : Item} {k tag : Nat} {f : Flight Ticket} {queue : String}
  {t : Ticket}

/-- Whatever has the number of a ticket is that ticket, at its place. -/
theorem Lies.eq_of_mem (h : b.Lies past queue t place) (hmem : i ∈ b.items past src)
    (hn : i.number = t.number) :
    src = place ∧ i.ticket = t.failed (nacks t.number past) ∧ ∀ name ∈ i.queue, name = queue := by
  obtain ⟨q, hsole, hq⟩ := h
  obtain ⟨rfl, rfl⟩ := hsole.eq_of_mem hmem hn
  exact ⟨rfl, rfl, hq⟩

theorem Lies.exists_mem (h : b.Lies past queue t place) :
    ∃ i ∈ b.items past place, i.number = t.number ∧ ∀ name ∈ i.queue, name = queue := by
  obtain ⟨q, hsole, hq⟩ := h
  have hcopy : (⟨t.failed (nacks t.number past), q⟩ : Item) ∈
      copies t.number (b.items past place) := hsole.here ▸ List.mem_cons_self
  exact ⟨_, List.mem_of_mem_filter hcopy, rfl, hq⟩

theorem Lies.of_sameCopies (h : b.Lies past queue t place)
    (hsame : Layout.SameCopies (b.items past) (b'.items past') t.number)
    (hnacks : nacks t.number past' = nacks t.number past) : b'.Lies past' queue t place := by
  obtain ⟨q, hsole, hq⟩ := h
  refine ⟨q, ?_, hq⟩
  rw [hnacks]
  exact hsame.sole hsole

/-- Where a ticket lies after a move: at the destination, if it is the one that moved, and
    where it lay otherwise. -/
theorem Transfer.lies (h : Transfer past b past' b' src i dst i' k)
    (hlies : b.Lies past queue t place) :
    (i.number ≠ t.number ∧ nacks t.number past' = nacks t.number past ∧
      b'.Lies past' queue t place) ∨
    (i.number = t.number ∧ src = place ∧ nacks t.number past' = nacks t.number past + k ∧
      b'.Lies past' queue t dst) := by
  by_cases hn : i.number = t.number
  · right
    obtain ⟨q, hsole, hq⟩ := hlies
    obtain ⟨rfl, rfl⟩ := hsole.eq_of_mem h.moves.mem hn
    have hnacks : nacks t.number past' = nacks t.number past + k := by
      rw [h.nacks_eq, if_pos hn.symm]
    refine ⟨hn, rfl, hnacks, i'.queue, ?_, fun name hname => hq name (h.queue_le name hname)⟩
    have hmoved := h.moves.sole hsole
    have hitem : i' = ⟨t.failed (nacks t.number past'), i'.queue⟩ := by
      rw [hnacks, ← Ticket.failed_failed, ← h.ticket_eq]
    rwa [← hitem]
  · left
    have hnacks : nacks t.number past' = nacks t.number past := by
      rw [h.nacks_eq, if_neg (Ne.symm hn), Nat.add_zero]
    exact ⟨hn, hnacks, hlies.of_sameCopies (h.moves.sameCopies hn) hnacks⟩

/-- A move keeps every ticket in one place. -/
theorem Transfer.conserved (h : Transfer past b past' b' src i dst i' k)
    (hc : Conserved past b) : Conserved past' b' where
  lies p hp := by
    rw [h.publications_eq] at hp
    obtain ⟨place, hlies⟩ := hc.lies p hp
    rcases h.lies hlies with ⟨-, -, hstays⟩ | ⟨-, -, -, hmoved⟩
    · exact ⟨place, hstays⟩
    · exact ⟨dst, hmoved⟩
  absent n hn := h.moves.absent (hc.absent n (by rwa [numbers, ← h.publications_eq]))
  nacks_eq_zero n hn := by
    rw [numbers, h.publications_eq] at hn
    rw [h.nacks_eq, hc.nacks_eq_zero n hn, if_neg (h.moves.ne_of_absent (hc.absent n hn)).symm]

theorem items_congr (h : done past' = done past) : b.items past' = b.items past := by
  funext place
  cases place with
  | done => simp only [items, h]
  | _ => rfl

/-- A call that neither changes the broker nor tells the history anything. -/
theorem Sound.idle (h : Sound past b) (hpublications : publications past' = publications past)
    (hdone : done past' = done past) (hnacks : ∀ n, nacks n past' = nacks n past)
    (hdelivered : ∀ tag, delivered tag past' = delivered tag past) : Sound past' b := by
  have hitems := items_congr (b := b) hdone
  have hnumbers : numbers past' = numbers past := by rw [numbers, hpublications, numbers]
  refine ⟨⟨fun p hp => ?_, fun n hn => ?_, fun n hn => ?_⟩,
    ⟨h.tagged.le_lastTag, fun tag f hf => ?_⟩⟩
  · rw [hpublications] at hp
    simpa only [Lies, hitems, hnacks] using h.conserved.lies p hp
  · rw [hitems]
    exact h.conserved.absent n (hnumbers ▸ hn)
  · rw [hnacks]
    exact h.conserved.nacks_eq_zero n (hnumbers ▸ hn)
  · rw [hdelivered]
    exact h.tagged.delivered_eq tag f hf

/-! ### The parts of a broker -/

theorem items_inFlight (hf : b.inFlight[tag]? = some f) :
    b.items past (.inFlight tag) = [⟨f.message, some f.queue⟩] := by
  simp [items, hf]

theorem items_land_self : (b.land tag).items past (.inFlight tag) = [] := by
  simp [items, inFlight_land]

theorem items_land_of_ne {place : Place} (h : place ≠ .inFlight tag) :
    (b.land tag).items past place = b.items past place := by
  cases place with
  | inFlight other =>
    have hne : tag ≠ other := fun heq => h (heq ▸ rfl)
    simp [items, inFlight_land, hne]
  | _ => rfl

theorem items_setPending_self (ps : List (Pending Ticket)) :
    (b.setPending queue ps).items past (.queue queue)
      = ps.map fun p => ⟨p.message, some queue⟩ := by
  simp [items]

theorem items_setPending_of_ne {place : Place} (ps : List (Pending Ticket))
    (h : place ≠ .queue queue) :
    (b.setPending queue ps).items past place = b.items past place := by
  cases place with
  | queue name =>
    have hne : name ≠ queue := fun heq => h (heq ▸ rfl)
    simp [items, pending_setPending_of_ne b ps hne]
  | _ => rfl

/-- Wherever a message is put among those of a queue, the queue gains it. -/
theorem adds_setPending {p : Pending Ticket} {ps : List (Pending Ticket)}
    (h : ps.Perm (p :: b.pending queue)) :
    (b.items past).Adds ((b.setPending queue ps).items past) (.queue queue)
      ⟨p.message, some queue⟩ where
  arrives := by
    rw [items_setPending_self]
    exact h.map fun p => (⟨p.message, some queue⟩ : Item)
  frame _ hplace := items_setPending_of_ne ps hplace

/-- The ticket of a delivery that lands and is put somewhere has moved there. -/
theorem moves_of_land (hf : b.inFlight[tag]? = some f) (hdst : dst ≠ .inFlight tag)
    (hnumber : i'.number = f.message.number)
    (hadds : ((b.land tag).items past).Adds (b'.items past') dst i') :
    (b.items past).Moves (b'.items past') (.inFlight tag) ⟨f.message, some f.queue⟩ dst i' where
  number_eq := hnumber
  ne := hdst.symm
  leaves := by rw [items_inFlight hf, hadds.frame _ hdst.symm, items_land_self]
  arrives := by
    have harrives := hadds.arrives
    rwa [items_land_of_ne hdst] at harrives
  frame p hsrc hp := by rw [hadds.frame p hp, items_land_of_ne hsrc]

/-! ### Calls -/

/-- A delivery that times out goes back to its queue, and no failure is counted. -/
theorem requeue_transfer (hf : b.inFlight[tag]? = some f) :
    Transfer past b past (b.requeue now tag) (.inFlight tag) ⟨f.message, some f.queue⟩
      (.queue f.queue) ⟨f.message, some f.queue⟩ 0 where
  moves := by
    rw [requeue_eq hf]
    exact moves_of_land hf nofun rfl (adds_setPending (List.Perm.refl _))
  ticket_eq := rfl
  queue_le _ h := h
  publications_eq := rfl
  nacks_eq n := by simp

theorem Tagged.land (h : Tagged past b) (hin : b'.inFlight = (b.land tag).inFlight)
    (hlast : b'.lastTag = b.lastTag) (hdelivered : ∀ t, delivered t past' = delivered t past) :
    Tagged past' b' := by
  have hsub : ∀ (t : Nat) (g : Flight Ticket),
      b'.inFlight[t]? = some g → b.inFlight[t]? = some g := by
    intro t g hg
    rw [hin, inFlight_land] at hg
    split at hg
    · cases hg
    · exact hg
  refine ⟨fun t g hg => hlast ▸ h.le_lastTag t g (hsub t g hg), fun t g hg => ?_⟩
  exact (hdelivered t).trans (h.delivered_eq t g (hsub t g hg))

theorem Sound.requeue (h : Sound past b) : Sound past (b.requeue now tag) := by
  cases hf : b.inFlight[tag]? with
  | none => simpa only [Broker.requeue, hf] using h
  | some f =>
    refine ⟨(requeue_transfer hf).conserved h.conserved, ?_⟩
    rw [requeue_eq hf]
    exact h.tagged.land rfl rfl fun _ => rfl

/-- Late deliveries may be put back in any order. -/
theorem Sound.requeueAll (h : Sound past b) (tags : List Nat) :
    Sound past (b.requeueAll now tags) := by
  induction tags with
  | nil => exact h
  | cons tag tags ih => exact ih.requeue

theorem Lies.idle (h : b.Lies past queue t place) (hdone : done past' = done past)
    (hnacks : nacks t.number past' = nacks t.number past) : b.Lies past' queue t place := by
  simpa only [Lies, items_congr (b := b) hdone, hnacks] using h

/-- A ticket that is not in flight under a late tag stays where it is. -/
theorem Lies.requeueAll {tags : List Nat} (h : b.Lies past queue t place)
    (hplace : ∀ tag ∈ tags, .inFlight tag ≠ place) :
    (b.requeueAll now tags).Lies past queue t place := by
  induction tags with
  | nil => exact h
  | cons tag tags ih =>
    obtain ⟨htag, htags⟩ := List.forall_mem_cons.mp hplace
    have hrest := ih htags
    show ((b.requeueAll now tags).requeue now tag).Lies past queue t place
    generalize b.requeueAll now tags = c at hrest
    cases hf : c.inFlight[tag]? with
    | none => simpa only [Broker.requeue, hf] using hrest
    | some f =>
      rcases (requeue_transfer hf).lies hrest with ⟨-, -, hstays⟩ | ⟨-, hsame, -, -⟩
      · exact hstays
      · exact absurd hsame htag

/-- The next tag is not in use. -/
theorem Tagged.next_free (h : Tagged past b) : b.inFlight[b.lastTag + 1]? = none := by
  cases hf : b.inFlight[b.lastTag + 1]? with
  | none => rfl
  | some f => exact absurd (h.le_lastTag _ f hf) (by omega)

/-- A message that is handed out moves from its queue to its tag. -/
theorem launch_transfer {t : Ticket} {rest : List (Pending Ticket)} (deadline : Moment)
    (htake : takeVisible now (b.pending queue) = some (t, rest)) (htagged : Tagged past b) :
    Transfer past b (.received queue (some ⟨b.lastTag + 1, queue, t⟩) :: past)
      ((b.setPending queue rest).launch queue t deadline) (.queue queue) ⟨t, some queue⟩
      (.inFlight (b.lastTag + 1)) ⟨t, some queue⟩ 0 where
  moves := {
    number_eq := rfl
    ne := nofun
    -- The queue is what it was but for this message, wherever in it the message stood.
    leaves := by
      have hperm := (takeVisible_perm htake).map fun t => (⟨t, some queue⟩ : Item)
      simpa [items, launch, setPending, pending, Function.comp_def] using hperm
    arrives := by
      simp [items, inFlight_launch, htagged.next_free]
    frame := by
      intro place hsrc hdst
      cases place with
      | queue name =>
        have hne : name ≠ queue := fun heq => hsrc (heq ▸ rfl)
        have hpending : ((b.setPending queue rest).launch queue t deadline).pending name =
            b.pending name := pending_setPending_of_ne b rest hne
        simp only [items, hpending]
      | inFlight other =>
        have hne : b.lastTag + 1 ≠ other := fun heq => hdst (heq ▸ rfl)
        simp [items, inFlight_launch, hne]
      | _ => rfl }
  ticket_eq := rfl
  queue_le _ h := h
  publications_eq := rfl
  nacks_eq n := by simp [nacks]

theorem Sound.deliver {d : Option (Delivery Ticket)} (h : Sound past b)
    (hdeliver : b.deliver now queue = (.ok d, b')) : Sound (.received queue d :: past) b' := by
  obtain ⟨rfl, rfl⟩ | ⟨t, rest, deadline, htake, rfl, rfl⟩ := deliver_ok hdeliver
  · exact h.idle rfl rfl (fun _ => rfl) fun _ => rfl
  refine ⟨(launch_transfer deadline htake h.tagged).conserved h.conserved, ⟨?_, ?_⟩⟩
  · intro tag f hf
    rw [inFlight_launch] at hf
    show tag ≤ b.lastTag + 1
    split at hf
    · omega
    · have := h.tagged.le_lastTag tag f hf
      omega
  · intro tag f hf
    rw [inFlight_launch] at hf
    split at hf
    · rename_i heq
      cases hf
      simp [delivered, heq]
    · rename_i hne
      simpa only [delivered, hne, if_false] using h.tagged.delivered_eq tag f hf

/-- A delivery that is acknowledged is done with. -/
theorem ack_transfer (hf : b.inFlight[tag]? = some f) (htagged : Tagged past b) :
    Transfer past b (.acked tag (.ok ()) :: past) (b.land tag) (.inFlight tag)
      ⟨f.message, some f.queue⟩ .done ⟨f.message, none⟩ 0 where
  moves := moves_of_land hf nofun rfl {
    arrives := by
      simp [items, done, htagged.delivered_eq tag f hf]
    frame := by
      intro place hplace
      cases place with
      | done => exact absurd rfl hplace
      | _ => rfl }
  ticket_eq := rfl
  queue_le := nofun
  publications_eq := rfl
  nacks_eq n := by simp [nacks]

theorem Sound.ack {result : Except UnknownDelivery Unit} (h : Sound past b)
    (hack : b.ack tag = (result, b')) : Sound (.acked tag result :: past) b' := by
  unfold Broker.ack at hack
  cases hf : b.inFlight[tag]? with
  | none =>
    rw [hf] at hack
    cases hack
    exact h.idle rfl rfl (fun _ => rfl) fun _ => rfl
  | some f =>
    rw [hf] at hack
    cases hack
    exact ⟨(ack_transfer hf h.tagged).conserved h.conserved, h.tagged.land rfl rfl fun _ => rfl⟩

theorem publish_adds {t : Ticket} {delay : Duration}
    (h : b.publish now queue t delay = .ok b') :
    (b.items past).Adds (b'.items past) (.queue queue) ⟨t, some queue⟩ := by
  obtain ⟨visibleAt, rfl⟩ := publish_ok h
  have hlast : (b.pending queue ++ [(⟨t, visibleAt⟩ : Pending Ticket)]).Perm
      (⟨t, visibleAt⟩ :: b.pending queue) := List.perm_append_comm
  exact adds_setPending hlast

/-- Where a message goes whose attempt failed. -/
def Place.afterFailure (queue : String) : Option Duration → Place
  | some _ => .queue queue
  | none => .deadLetters

theorem Place.afterFailure_ne_inFlight (requeueAfter : Option Duration) :
    Place.afterFailure queue requeueAfter ≠ .inFlight tag := by
  cases requeueAfter <;> nofun

/-- A message that is put back goes to the end of its queue, or is given up. -/
theorem putBack_adds {t : Ticket} {requeueAfter : Option Duration}
    (h : b.putBack now queue t requeueAfter = .ok b') :
    (b.items past).Adds (b'.items past) (.afterFailure queue requeueAfter)
      ⟨t, requeueAfter.map fun _ => queue⟩ := by
  cases requeueAfter with
  | some delay => exact publish_adds h
  | none =>
    cases h
    refine ⟨?_, fun place hplace => ?_⟩
    · simp [items, bury, Place.afterFailure]
    · cases place with
      | deadLetters => exact absurd rfl hplace
      | _ => rfl

/-- A delivery that is handed back counts one failure more, wherever its message goes. -/
theorem nack_transfer {requeueAfter : Option Duration} (hf : b.inFlight[tag]? = some f)
    (htagged : Tagged past b)
    (hput : (b.land tag).putBack now f.queue (f.message.failed 1) requeueAfter = .ok b') :
    Transfer past b (.nacked tag requeueAfter (.ok ()) :: past) b' (.inFlight tag)
      ⟨f.message, some f.queue⟩ (.afterFailure f.queue requeueAfter)
      ⟨f.message.failed 1, requeueAfter.map fun _ => f.queue⟩ 1 where
  moves := moves_of_land hf (Place.afterFailure_ne_inFlight requeueAfter) rfl (putBack_adds hput)
  ticket_eq := rfl
  queue_le name hname := by
    obtain ⟨_, -, hqueue⟩ := Option.map_eq_some_iff.mp hname
    exact congrArg some hqueue
  publications_eq := rfl
  nacks_eq n := by
    simp [nacks, htagged.delivered_eq tag f hf, Item.number, eq_comm (a := n)]

theorem Sound.nack {requeueAfter : Option Duration} {result : Except UnknownDelivery Unit}
    (h : Sound past b) (hnack : b.nack now tag requeueAfter = (.ok result, b')) :
    Sound (.nacked tag requeueAfter result :: past) b' := by
  obtain ⟨rfl, rfl⟩ | ⟨f, t, hf, hfailed, rfl, hput⟩ := nack_ok hnack
  · exact h.idle rfl rfl (fun _ => rfl) fun _ => rfl
  obtain rfl := Ticket.failedOnce_eq hfailed
  obtain ⟨hin, -, hlast⟩ := putBack_frame hput
  exact ⟨(nack_transfer hf h.tagged hput).conserved h.conserved,
    h.tagged.land hin hlast fun _ => rfl⟩

/-- A message that is published under a new number waits in its queue, and was never handed
    back. -/
theorem Sound.lies_published {delay : Duration} (h : Sound past b)
    (hpublish : b.publish now queue t delay = .ok b') (hfresh : t.number ∉ numbers past) :
    nacks t.number (.published queue t delay :: past) = 0 ∧
      b'.Lies (.published queue t delay :: past) queue t (.queue queue) := by
  have hzero : nacks t.number (.published queue t delay :: past) = 0 :=
    h.conserved.nacks_eq_zero _ hfresh
  have hadds : (b.items past).Adds (b'.items past) (.queue queue) ⟨t, some queue⟩ :=
    publish_adds hpublish
  refine ⟨hzero, some queue, ?_, fun name hname => (Option.some.inj hname).symm⟩
  rw [hzero, Ticket.failed_zero]
  exact hadds.sole (h.conserved.absent _ hfresh)

/-- A message is published under a number that was not used before. -/
theorem Sound.publish {t : Ticket} {delay : Duration} (h : Sound past b)
    (hpublish : b.publish now queue t delay = .ok b') (hfresh : t.number ∉ numbers past) :
    Sound (.published queue t delay :: past) b' := by
  have hadds : (b.items past).Adds (b'.items past) (.queue queue) ⟨t, some queue⟩ :=
    publish_adds hpublish
  refine ⟨⟨fun p hp => ?_, fun n hn => ?_, fun n hn => ?_⟩, ?_⟩
  · rw [publications_cons, List.mem_append] at hp
    rcases hp with hnew | hold
    · obtain rfl : p = (queue, t) := by simpa [BrokerAct.published?, eq_comm] using hnew
      exact ⟨.queue queue, (h.lies_published hpublish hfresh).2⟩
    · obtain ⟨place, hlies⟩ := h.conserved.lies p hold
      have hne : t.number ≠ p.2.number :=
        fun heq => hfresh (heq ▸ List.mem_map_of_mem (f := fun p => p.2.number) hold)
      exact ⟨place, hlies.of_sameCopies (hadds.sameCopies hne) rfl⟩
  · obtain ⟨hne, hold⟩ : n ≠ t.number ∧ n ∉ numbers past := by
      simpa [numbers_cons, BrokerAct.published?] using hn
    exact (hadds.sameCopies hne.symm).absent (h.conserved.absent n hold)
  · obtain ⟨-, hold⟩ : n ≠ t.number ∧ n ∉ numbers past := by
      simpa [numbers_cons, BrokerAct.published?] using hn
    exact h.conserved.nacks_eq_zero n hold
  · obtain ⟨visibleAt, rfl⟩ := publish_ok hpublish
    exact ⟨h.tagged.le_lastTag, h.tagged.delivered_eq⟩

/-! ### Runs -/

theorem Sound.start (visibility : Duration) : Sound [] { visibility } := by
  refine ⟨⟨nofun, fun n _ place => ?_, fun _ _ => rfl⟩, ⟨fun tag f hf => ?_, fun tag f hf => ?_⟩⟩
  · cases place <;> simp [items, pending, done, copies]
  · simp at hf
  · simp at hf

theorem Sound.does {act : BrokerAct Ticket} (h : Sound past b) (hdoes : b.Does now act b')
    (hfresh : (numbers (act :: past)).Nodup) : Sound (act :: past) b' := by
  cases hdoes with
  | publish hpublish =>
    rw [numbers_cons] at hfresh
    exact h.publish hpublish (List.nodup_cons.mp hfresh).1
  | receive _ hdeliver => exact (h.requeueAll _).deliver hdeliver
  | ack hack => exact h.ack hack
  | nack hnack => exact h.nack hnack
  | requeueExpired => exact (h.requeueAll _).idle rfl rfl (fun _ => rfl) fun _ => rfl

theorem Runs.sound {visibility : Duration} (h : Runs visibility past b)
    (hnodup : (numbers past).Nodup) : Sound past b := by
  induction h with
  | start => exact .start visibility
  | @call past b now act b' h hdoes ih =>
    have hpast : (numbers past).Nodup := by
      rw [numbers_cons] at hnodup
      exact (List.nodup_append.mp hnodup).2.1
    exact (ih hpast).does hdoes hnodup

/-- Nothing lies anywhere that was not published. -/
theorem Conserved.mem_numbers (h : Conserved past b) (hi : i ∈ b.items past place) :
    i.number ∈ numbers past := by
  by_contra hn
  have hcopy : i ∈ copies i.number (b.items past place) := by simpa [copies] using hi
  rw [h.absent _ hn place] at hcopy
  cases hcopy

/-- A ticket that lies in one place lies in no other. -/
theorem Lies.unique {t : Ticket} {place other : Place} (h : b.Lies past queue t place)
    (hother : b.Lies past queue t other) : other = place := by
  obtain ⟨i, hi, hn, -⟩ := hother.exists_mem
  exact (h.eq_of_mem hi hn).1

/-- No message is lost or duplicated. Every run over messages is a run over tickets that have
    numbers of their own, with the numbers taken away. In a run over tickets, every ticket
    that was published lies in exactly one place, once, on the queue that it was published
    to and unchanged but for its failures, which count the deliveries of it that were
    handed back; and nothing lies anywhere that was not published. Every call returns,
    unless a number leaves its range: a deadline, the tag or the count of failures. -/
theorem conservation (visibility : Duration) :
    (∀ (past : List (BrokerAct TaskMessage)) (b : Broker TaskMessage), Runs visibility past b →
      ∃ Past B, Runs visibility Past B ∧ (numbers Past).Nodup ∧
        Past.map (BrokerAct.map Ticket.message) = past ∧ B.map Ticket.message = b) ∧
    (∀ (past : List (BrokerAct Ticket)) (b : Broker Ticket), Runs visibility past b →
      (numbers past).Nodup →
      (∀ p ∈ publications past, ∃! place, b.Lies past p.1 p.2 place) ∧
      ∀ place, ∀ i ∈ b.items past place, i.number ∈ numbers past) ∧
    ∀ (past : List (BrokerAct TaskMessage)) (b : Broker TaskMessage), Runs visibility past b →
      ∀ now call, Fits visibility past b now call →
        ∃ act b', b.perform now call = .ok (act, b') := by
  refine ⟨fun past b h => h.ticketed, fun past b h hnodup => ?_,
    fun past b h now call hfits => h.perform_returns hfits⟩
  obtain ⟨hconserved, -⟩ := h.sound hnodup
  constructor
  · intro p hp
    obtain ⟨place, hlies⟩ := hconserved.lies p hp
    exact ⟨place, hlies, fun other hother => hlies.unique hother⟩
  · exact fun place i hi => hconserved.mem_numbers hi

/-- Two equal messages are published. The first one times out, is handed back, and waits
    again; the second one is acknowledged. -/
def redelivered : Checked (List (BrokerAct TaskMessage) × Broker TaskMessage) :=
  let m : TaskMessage := ⟨"m", "t", .null, none, 0⟩
  Broker.play { visibility := ⟨5, by decide⟩ } []
    [(0, .publish "q" m .zero), (0, .publish "q" m .zero), (0, .receive "q"),
      (10, .requeueExpired), (10, .receive "q"), (11, .nack 2 (some .zero)),
      (12, .receive "q"), (13, .ack 3)]

theorem conservation_redelivered :
    ∃ past b, Runs ⟨5, by decide⟩ past b ∧ (publications past).map (·.1) = ["q", "q"] ∧
      (b.pending "q").map (·.message.failures) = [1] ∧
      (∃ Past B, Runs ⟨5, by decide⟩ Past B ∧ (numbers Past).Nodup ∧
        Past.map (BrokerAct.map Ticket.message) = past ∧ B.map Ticket.message = b ∧
        ∀ p ∈ publications Past, ∃! place, B.Lies Past p.1 p.2 place) ∧
      ∃ act b', b.perform 14 (.receive "q") = .ok (act, b') := by
  have hresult : redelivered.toOption.map (fun r => ((publications r.1).map (·.1),
      (r.2.pending "q").map (·.message.failures), r.1.length)) =
        some (["q", "q"], [1], 8) := by decide +kernel
  have hplay : ∀ r, redelivered = .ok r → Runs ⟨5, by decide⟩ r.1 r.2 :=
    fun r hr => Runs.start.play hr
  -- The run is not computed any further.
  generalize redelivered = result at hresult hplay
  rcases result with _ | ⟨past, b⟩
  · cases hresult
  have hfields := Option.some.inj hresult
  simp only [Prod.mk.injEq] at hfields
  obtain ⟨hpublications, hpending, hlength⟩ := hfields
  have hruns := hplay _ rfl
  obtain ⟨Past, B, hRuns, hnodup, hpast, hb⟩ := (conservation _).1 past b hruns
  refine ⟨past, b, hruns, hpublications, hpending,
    ⟨Past, B, hRuns, hnodup, hpast, hb, ((conservation _).2.1 Past B hRuns hnodup).1⟩, ?_⟩
  exact (conservation _).2.2 past b hruns 14 (.receive "q")
    ⟨by decide, by rw [hlength]; decide⟩

end Broker

end ExecutionControl
