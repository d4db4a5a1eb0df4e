import ExecutionControl.Proofs.Delivery.Waiting

/-! # The order of deliveries

    A message is handed out when its time has come: once the delay has passed with which it was
    published or handed back. Messages that are published to a queue without a delay are handed
    out in the order in which they were published, and deliveries that are found late are put in
    front of everything that waits.

    Of two such messages the earlier one stands in front of the later one, and its time has
    come whenever that of the later one has. So the later one is not handed out while the
    earlier one waits (`Timely.first`), however the queue looks around them.
-/

namespace ExecutionControl

/-- What a call published without a delay: the queue, and the number of the ticket. -/
def BrokerEvent.prompt? (e : BrokerEvent Ticket) : Option (String × Nat) :=
  match e.act with
  | .published queue t delay => if delay = .zero then some (queue, t.number) else none
  | _ => none

theorem BrokerEvent.prompt?_eq_some {e : BrokerEvent Ticket} {queue : String} {n : Nat} :
    e.prompt? = some (queue, n) ↔ ∃ t, e.act = .published queue t .zero ∧ t.number = n := by
  unfold prompt?
  cases e.act with
  | published name t delay => by_cases hdelay : delay = .zero <;> simp [hdelay]
  | _ => simp

namespace Broker

/-- What was published without a delay, the latest first. -/
def prompt (past : List (BrokerEvent Ticket)) : List (String × Nat) :=
  past.filterMap BrokerEvent.prompt?

variable {past : List (BrokerEvent Ticket)} {e e₁ e₂ : BrokerEvent Ticket}
  {b b' : Broker Ticket} {now : Moment} {queue : String} {out : List Nat} {n : Nat}
  {p p₁ p₂ : Pending Ticket} {t t₁ t₂ : Ticket} {visibility : Duration}

/-! ### Once and in order -/

/-- No call makes a ticket handed back less often. -/
theorem nacks_le_cons (act : BrokerAct Ticket) (history : List (BrokerAct Ticket)) (n : Nat) :
    nacks n history ≤ nacks n (act :: history) := by
  cases act with
  | nacked tag requeueAfter result =>
    cases result with
    | error _ => exact Nat.le_refl _
    | ok _ => exact Nat.le_add_right _ _
  | _ => exact Nat.le_refl _

theorem Undisturbed.tail (h : Undisturbed (e :: past) n) : Undisturbed past n where
  nacks_eq := by
    have hle := nacks_le_cons e.act (acts past) n
    have hzero : nacks n (e.act :: acts past) = 0 := h.nacks_eq
    omega
  notMem_timeouts hmem := h.notMem_timeouts (List.mem_append_right _ hmem)

/-- What is neither handed back nor found late is handed out at most once. -/
theorem Passes.count_receipts (h : Passes visibility past b)
    (hnodup : (numbers (acts past)).Nodup) (hn : Undisturbed past n) :
    (receipts past).count n ≤ 1 := by
  induction h with
  | start => exact Nat.zero_le _
  | @call past b time act b' h hpast hdoes ih =>
    have hrest := (numbers_nodup_tail hnodup).1
    have hold := ih hrest hn.tail
    cases hdoes with
    | @receive queue d tags _ htags hdeliver =>
      obtain ⟨rfl, -⟩ | ⟨t, rest, deadline, htake, rfl, -⟩ := deliver_ok hdeliver
      · exact hold
      show (t.number :: receipts past).count n ≤ 1
      by_cases heq : t.number = n
      · -- It was not handed out before, or else it would have been put back since.
        have hnot : n ∉ receipts past := by
          intro hmem
          have hsound := h.runs.sound hrest
          have htimely := (h.timely hrest hpast).requeueLate hsound htags
          obtain ⟨before, p, after, hps, -, -, rfl, -⟩ := takeVisible_eq_some htake
          have hp : p ∈ (b.requeueAll time tags).pending queue :=
            hps ▸ List.mem_append_right _ List.mem_cons_self
          subst heq
          rcases htimely.again queue p hp hmem with hout | hback
          · exact hn.notMem_timeouts hout
          · exact hback hn.tail.nacks_eq
        have hzero : (receipts past).count n = 0 := List.count_eq_zero_of_not_mem hnot
        rw [heq, List.count_cons_self]
        omega
      · rwa [List.count_cons_of_ne heq]
    | publish => exact hold
    | ack => exact hold
    | nack => exact hold
    | requeueExpired => exact hold

/-- What stands before the second of two in line is before it. -/
theorem mem_of_pair_sublist {γ : Type} {x y : γ} {before after : List γ}
    (h : [x, y].Sublist (before ++ y :: after)) (hnodup : (before ++ y :: after).Nodup) :
    x ∈ before := by
  obtain ⟨l, r, heq, hl, hr⟩ := List.sublist_append_iff.mp h
  cases l with
  | cons z l =>
    have hz : x = z := (List.cons.inj heq).1
    exact hz ▸ hl.subset List.mem_cons_self
  | nil =>
    -- Then the second one would stand behind itself.
    have hr' : [x, y].Sublist (y :: after) := heq ▸ hr
    have hy : y ∈ after := by
      cases hr' with
      | cons _ hrest => exact hrest.subset (List.mem_cons_of_mem _ List.mem_cons_self)
      | cons_cons _ hrest => exact hrest.subset List.mem_cons_self
    exact absurd hy (List.nodup_cons.mp (List.nodup_append.mp hnodup).2.1).1

/-- Of two messages whose time has come the one that was published first is handed out first. -/
theorem Timely.first {rest : List (Pending Ticket)} (h : Timely past out now b)
    (hnodup : (numbers (acts past)).Nodup)
    (htake : takeVisible now (b.pending queue) = some (t, rest))
    (hoffers : [p₂, p₁].Sublist (offers queue past)) (hvisible : p₁.visibleAt ≤ now)
    (hn : t.number = p₂.message.number) (hnew : p₂.message.number ∉ receipts past) :
    p₁.message.number ∈ receipts past := by
  by_contra hwaits
  obtain ⟨before, p, after, hps, hbefore, -, rfl, -⟩ := takeVisible_eq_some htake
  have hpfresh : fresh past p = true := fresh_iff.mpr (hn ▸ hnew)
  -- Both stand in line, in the order in which they were published.
  have hline : [p₁, p₂].Sublist ((b.pending queue).filter (fresh past)) := by
    have hpair := (hoffers.filter (fresh past)).reverse
    rw [← h.lined] at hpair
    simpa [fresh_iff.mpr hwaits, fresh_iff.mpr hnew] using hpair
  have hlist : (b.pending queue).filter (fresh past) =
      before.filter (fresh past) ++ p :: after.filter (fresh past) := by
    rw [hps, List.filter_append, List.filter_cons_of_pos hpfresh]
  have hapart : (((b.pending queue).filter (fresh past)).map (·.message.number)).Nodup := by
    rw [h.lined, List.map_reverse, List.nodup_reverse]
    exact hnodup.sublist ((List.filter_sublist.map _).trans (offers_sublist queue past))
  have heq : p₂ = p := by
    refine List.inj_on_of_nodup_map hapart (hline.subset (by simp)) ?_ hn.symm
    rw [hlist]
    exact List.mem_append_right _ List.mem_cons_self
  rw [heq, hlist] at hline
  have hmem := mem_of_pair_sublist hline (hlist ▸ hapart.of_map)
  exact absurd hvisible (Nat.not_le.mpr (hbefore p₁ (List.mem_filter.mp hmem).1))

/-- A message waits on the queue that it was published to. -/
theorem Sound.queue_eq {history : List (BrokerAct Ticket)} {name : String} (h : Sound history b)
    (hp : p ∈ b.pending name) (ht : (queue, t) ∈ publications history)
    (hn : p.message.number = t.number) : name = queue := by
  obtain ⟨place, hlies⟩ := h.conserved.lies (queue, t) ht
  exact (hlies.eq_of_mem (mem_items_pending hp) hn).2.2 name rfl

/-- Before a message that was published without a delay is handed out, all those have been that
    were published to its queue before it without one. -/
theorem Passes.received_before (h : Passes visibility past b)
    (hnodup : (numbers (acts past)).Nodup) (hpair : [e₂, e₁].Sublist past)
    (h₁ : e₁.act = .published queue t₁ .zero) (h₂ : e₂.act = .published queue t₂ .zero)
    {l : List Nat} (hl : (t₂.number :: l) <:+ receipts past) : t₁.number ∈ l := by
  induction h generalizing l with
  | start => exact absurd (List.suffix_nil.mp hl) (List.cons_ne_nil _ _)
  | @call past b time act b' h hpast hdoes ih =>
    obtain ⟨hrest, hfresh⟩ := numbers_nodup_tail hnodup
    have hsound := h.runs.sound hrest
    cases hdelivery : act.delivery? with
    | none =>
      have hreceipts : receipts (⟨time, act, b.lateFor time act⟩ :: past) = receipts past := by
        simp [receipts, hdelivery]
      rw [hreceipts] at hl
      cases hpair with
      | cons _ hpair => exact ih hrest hpair hl
      | cons_cons _ _ =>
        -- A ticket that is published now was not handed out before.
        have hknown := (h.timely hrest hpast).known _ (hl.subset List.mem_cons_self)
        have hact : act = .published queue t₂ .zero := h₂
        exact absurd hknown (hfresh (queue, t₂) (by rw [hact]; rfl))
    | some d =>
      have hreceipts : receipts (⟨time, act, b.lateFor time act⟩ :: past) =
          d.message.number :: receipts past := by
        simp [receipts, hdelivery]
      rw [hreceipts] at hl
      cases hpair with
      | cons_cons _ _ =>
        have hact : act = .published queue t₂ .zero := h₂
        rw [hact] at hdelivery
        cases hdelivery
      | cons _ hpair =>
        rcases List.suffix_cons_iff.mp hl with heq | hl
        · obtain ⟨hn, rfl⟩ := List.cons.inj heq
          by_cases hmem : t₂.number ∈ receipts past
          · -- It was handed out before, and so was the other one before that.
            obtain ⟨newer, older, hsplit⟩ := List.append_of_mem hmem
            have hbefore := ih hrest hpair ⟨newer, hsplit.symm⟩
            rw [hsplit]
            exact List.mem_append_right _ (List.mem_cons_of_mem _ hbefore)
          · cases hdoes with
            | @receive name _ tags _ htags hdeliver =>
              obtain ⟨rfl, -⟩ | ⟨t, rest, deadline, htake, rfl, -⟩ := deliver_ok hdeliver
              · cases hdelivery
              obtain rfl : _ = d := Option.some.inj hdelivery
              have htimely := (h.timely hrest hpast).requeueLate hsound htags
              have hpublished : (queue, t₂) ∈ publications (acts past) := by
                refine List.mem_filterMap.mpr ⟨e₂.act, ?_, by rw [h₂]; rfl⟩
                exact List.mem_map_of_mem (hpair.subset List.mem_cons_self)
              obtain ⟨before, p, after, hps, -, -, rfl, -⟩ := takeVisible_eq_some htake
              have hp : p ∈ (b.requeueAll time tags).pending name :=
                hps ▸ List.mem_append_right _ List.mem_cons_self
              obtain rfl := (hsound.requeueAll tags).queue_eq hp hpublished hn.symm
              have hoffers := hpair.filterMap (BrokerEvent.offer? name)
              simp only [List.filterMap_cons, List.filterMap_nil, BrokerEvent.offer?, h₁, h₂,
                if_true] at hoffers
              have htime : e₁.time ≤ time := hpast e₁ (hpair.subset (by simp))
              exact htimely.first hrest htake hoffers htime hn.symm hmem
            | publish => cases hdelivery
            | ack => cases hdelivery
            | nack => cases hdelivery
            | requeueExpired => cases hdelivery
        · exact ih hrest hpair hl

/-- Of two numbers each occurs at most once in a list, and the second one only in front of the
    first. -/
theorem filter_pair_suffix {l : List Nat} {m n : Nat} (hne : m ≠ n) (hm : l.count m ≤ 1)
    (hn : l.count n ≤ 1) (h : ∀ k, (n :: k) <:+ l → m ∈ k) :
    l.filter (fun k => k = m ∨ k = n) <:+ [n, m] := by
  -- Without the second number, the first one is all that is left.
  have hfirst : ∀ k : List Nat, n ∉ k →
      k.filter (fun k => k = m ∨ k = n) = List.replicate (k.count m) m := by
    intro k hnot
    rw [← List.filter_beq]
    refine List.filter_congr fun x hx => Bool.eq_iff_iff.mpr ?_
    have hx : x ≠ n := fun heq => hnot (heq ▸ hx)
    simp [hx]
  by_cases hmem : n ∈ l
  · obtain ⟨front, rest, rfl⟩ := List.append_of_mem hmem
    have hm_rest : 0 < rest.count m := List.count_pos_iff.mpr (h rest (List.suffix_append _ _))
    rw [List.count_append, List.count_cons_of_ne hne.symm] at hm
    rw [List.count_append, List.count_cons_self] at hn
    have hnone : front.filter (fun k => k = m ∨ k = n) = [] := by
      rw [hfirst front (List.count_eq_zero.mp (by omega))]
      have hzero : front.count m = 0 := by omega
      rw [hzero, List.replicate_zero]
    have hone : rest.count m = 1 := by omega
    rw [List.filter_append, hnone, List.nil_append, List.filter_cons_of_pos (by simp),
      hfirst rest (List.count_eq_zero.mp (by omega)), hone]
    exact List.suffix_refl _
  · rw [hfirst l hmem]
    obtain hzero | hone : l.count m = 0 ∨ l.count m = 1 := by omega
    · rw [hzero]
      exact List.nil_suffix
    · rw [hone]
      exact List.suffix_cons n [m]

/-- Two that are found in a list come from two of its entries, in the same order. -/
theorem exists_pair_of_filterMap {γ δ : Type} {f : γ → Option δ} {l : List γ} {x y : δ}
    (h : [y, x].Sublist (l.filterMap f)) :
    ∃ b a, [b, a].Sublist l ∧ f b = some y ∧ f a = some x := by
  obtain ⟨part, hpart, hpair⟩ := List.sublist_filterMap_iff.mp h
  obtain ⟨l₁, b, rest, rfl, -, hb, hrest⟩ := List.filterMap_eq_cons_iff.mp hpair.symm
  obtain ⟨l₂, a, l₃, rfl, -, ha, -⟩ := List.filterMap_eq_cons_iff.mp hrest
  have hsub : [b, a].Sublist (l₁ ++ b :: (l₂ ++ a :: l₃)) := by
    apply List.sublist_append_of_sublist_right
    apply List.Sublist.cons_cons
    apply List.sublist_append_of_sublist_right
    exact (List.nil_sublist l₃).cons_cons a
  exact ⟨b, a, hsub.trans hpart, hb, ha⟩

/-- Two messages that are published to a queue without a delay, and are neither handed back nor
    found late, are handed out in the order in which they were published. -/
theorem Passes.received_in_order {m n : Nat} (h : Passes visibility past b)
    (hnodup : (numbers (acts past)).Nodup)
    (hpair : [(queue, n), (queue, m)].Sublist (prompt past))
    (hm : Undisturbed past m) (hn : Undisturbed past n) :
    (receipts past).filter (fun k => k = m ∨ k = n) <:+ [n, m] := by
  obtain ⟨e₂, e₁, hevents, he₂, he₁⟩ := exists_pair_of_filterMap hpair
  obtain ⟨t₂, h₂, rfl⟩ := BrokerEvent.prompt?_eq_some.mp he₂
  obtain ⟨t₁, h₁, rfl⟩ := BrokerEvent.prompt?_eq_some.mp he₁
  have hne : t₁.number ≠ t₂.number := by
    have hoffers := (hevents.filterMap (BrokerEvent.offer? queue)).map (·.message.number)
    simp only [List.filterMap_cons, List.filterMap_nil, BrokerEvent.offer?, h₁, h₂, if_true,
      List.map_cons, List.map_nil] at hoffers
    have hapart := hnodup.sublist (hoffers.trans (offers_sublist queue past))
    exact Ne.symm (by simpa using hapart)
  exact filter_pair_suffix hne (h.count_receipts hnodup hm) (h.count_receipts hnodup hn)
    fun l hl => h.received_before hnodup hevents h₁ h₂ hl

/-! ### Handing out -/

/-- What is handed out was due. -/
theorem Timely.due {d : Delivery Ticket} (h : Timely past out now b)
    (hdeliver : b.deliver now queue = (.ok (some d), b')) :
    ∃ ready ∈ readyAt d.message.number past, ready ≤ now := by
  obtain ⟨hnone, -⟩ | ⟨t, rest, deadline, htake, hd, -⟩ := deliver_ok hdeliver
  · cases hnone
  obtain rfl := Option.some.inj hd
  obtain ⟨before, p, after, hps, -, hvisible, rfl, -⟩ := takeVisible_eq_some htake
  have hp : p ∈ b.pending queue := hps ▸ List.mem_append_right _ List.mem_cons_self
  obtain ⟨ready, hready, hle, -⟩ := h.ready queue p hp
  exact ⟨ready, hready, Nat.le_trans hle hvisible⟩

/-- A receiver finds a message if and only if one waits whose time has come, or a delivery is late
    that came from its queue. -/
theorem Passes.receive_returns {past : List (BrokerEvent TaskMessage)} {b : Broker TaskMessage}
    (h : Passes visibility past b) (hfits : Fits visibility (acts past) b now (.receive queue)) :
    ∃ d b', b.perform now (.receive queue) = .ok (.received queue d, b') ∧
      (d.isSome ↔ (∃ p ∈ b.pending queue, p.visibleAt ≤ now) ∨ ∃ m, b.Late now queue m) := by
  obtain ⟨act, b', hperform⟩ := h.runs.perform_returns hfits
  obtain ⟨d, rfl, hdeliver⟩ : ∃ d, act = .received queue d ∧
      (b.requeueAll now (b.expired now)).deliver now queue = (.ok d, b') := by
    simp only [perform] at hperform
    rcases hreceive : b.receive now queue with ⟨_ | d, after⟩
    · rw [hreceive] at hperform
      cases hperform
    · rw [hreceive] at hperform
      cases hperform
      exact ⟨d, rfl, hreceive⟩
  -- What is looked through is what was put back in front of what waited before.
  obtain ⟨front, hpending, hfront⟩ := pending_of_late (List.Perm.refl (b.expired now)) queue
  refine ⟨d, b', hperform, ?_⟩
  rw [Option.isSome_iff_ne_none, Ne, deliver_eq_none hdeliver, hpending]
  simp only [not_forall, Nat.not_lt, exists_prop]
  constructor
  · intro hready
    obtain ⟨p, hp, hvisible⟩ := hready
    rcases List.mem_append.mp hp with hp | hp
    · exact .inr ⟨p.message, ((hfront p).mp hp).1⟩
    · exact .inl ⟨p, hp, hvisible⟩
  · intro hready
    rcases hready with ⟨p, hp, hvisible⟩ | ⟨m, hlate⟩
    · exact ⟨p, List.mem_append_right _ hp, hvisible⟩
    · have hp := (hfront ⟨m, now⟩).mpr ⟨hlate, rfl⟩
      exact ⟨⟨m, now⟩, List.mem_append_left _ hp, Nat.le_refl now⟩

/-- Delivery order and visibility. Every run over messages at times that never fall is such a run
    over tickets, with their numbers taken away; and in such a run a receiver finds a message
    if and only if one waits on its queue whose time has come or a delivery is late that came
    from there, unless a number leaves its range.

    In a run over tickets, two messages that were published to a queue without a delay and were
    neither handed back nor found late are handed out in the order in which they were
    published, whatever lies around them: their receipts, the latest first, end the list of
    the two. A message that waits may be handed out once its time has come, which is set when
    it is published and when it is handed back; and nothing is handed out before. A receiver
    first puts back what is late, and then takes the first message whose time has come. What is
    put back stands in front of everything that waited on its queue before. -/
theorem delivery_order (visibility : Duration) :
    (∀ (past : List (BrokerEvent TaskMessage)) (b : Broker TaskMessage),
      Passes visibility past b →
      (∃ Past B, Passes visibility Past B ∧ (numbers (acts Past)).Nodup ∧
        Past.map (BrokerEvent.map Ticket.message) = past ∧ B.map Ticket.message = b) ∧
      ∀ now queue, Fits visibility (acts past) b now (.receive queue) →
        ∃ d b', b.perform now (.receive queue) = .ok (.received queue d, b') ∧
          (d.isSome ↔ (∃ p ∈ b.pending queue, p.visibleAt ≤ now) ∨ ∃ m, b.Late now queue m)) ∧
    ∀ (past : List (BrokerEvent Ticket)) (b : Broker Ticket), Passes visibility past b →
      (numbers (acts past)).Nodup →
      (∀ queue m n, [(queue, n), (queue, m)].Sublist (prompt past) →
        Undisturbed past m → Undisturbed past n →
        (receipts past).filter (fun k => k = m ∨ k = n) <:+ [n, m]) ∧
      ∀ now, Until past now →
        (∀ queue, ∀ p ∈ b.pending queue, ∃ ready ∈ readyAt p.message.number past,
          p.visibleAt ≤ now ↔ ready ≤ now) ∧
        (∀ queue d b', b.Does now (.received queue (some d)) b' →
          ∃ ready ∈ readyAt d.message.number past, ready ≤ now) ∧
        (∀ queue d b', b.Does now (.received queue d) b' →
          ∃ k mid, b.Does now (.requeued k) mid ∧ mid.deliver now queue = (.ok d, b')) ∧
        ∀ k b', b.Does now (.requeued k) b' → ∀ queue, ∃ front,
          b'.pending queue = front ++ b.pending queue ∧
            ∀ p, p ∈ front ↔ b.Late now queue p.message ∧ p.visibleAt = now := by
  refine ⟨fun past b h => ⟨h.ticketed, ?_⟩, fun past b h hnodup => ⟨?_, ?_⟩⟩
  · intro now queue hfits
    exact h.receive_returns hfits
  · intro queue m n hpair hm hn
    exact h.received_in_order hnodup hpair hm hn
  · intro now hnow
    have htimely := h.timely hnodup hnow
    refine ⟨?_, ?_, ?_, ?_⟩
    · intro queue p hp
      obtain ⟨ready, hready, hle, hor⟩ := htimely.ready queue p hp
      refine ⟨ready, hready, fun hvisible => Nat.le_trans hle hvisible, fun hdue => ?_⟩
      rcases hor with heq | hpast
      · exact heq ▸ hdue
      · exact hpast
    · intro queue d b' hdoes
      cases hdoes with
      | receive htags hdeliver =>
        exact (htimely.requeueLate (h.runs.sound hnodup) htags).due hdeliver
    · intro queue d b' hdoes
      cases hdoes with
      | receive htags hdeliver => exact ⟨_, _, .requeueExpired htags, hdeliver⟩
    · intro k b' hdoes queue
      cases hdoes with
      | requeueExpired htags => exact pending_of_late htags queue

/-- Message 7 is handed out and found late, 9 and 4 have delays, and 1 and 2 are published between
    them without one. -/
def crossing {α : Type} [CountsFailures α] (m : Nat → α) :
    Checked (List (BrokerEvent α) × Broker α) :=
  Broker.follow { visibility := ⟨50, by decide⟩ } []
    [(0, .publish "q" (m 7) .zero), (0, .receive "q"), (10, .publish "q" (m 9) ⟨30, by decide⟩),
      (10, .publish "q" (m 1) .zero), (20, .publish "q" (m 4) ⟨1000, by decide⟩),
      (20, .publish "q" (m 2) .zero), (20, .receive "q"), (60, .receive "q"), (60, .receive "q"),
      (60, .receive "q")]

/-- The same message under any number. -/
def numbered (n : Nat) : Ticket := ⟨n, ⟨"m", "t", .null, none, 0⟩⟩

/-- Calls at times that never fall. -/
theorem passes_crossing {α : Type} [CountsFailures α] {m : Nat → α} {past : List (BrokerEvent α)}
    {b : Broker α} (h : crossing m = .ok (past, b)) : Passes ⟨50, by decide⟩ past b := by
  have htime : Until ([] : List (BrokerEvent α)) 0 := nofun
  refine Passes.start.follow htime ?_ h
  simp only [List.map_cons, List.map_nil]
  decide

/-- The two are handed out one after the other, with the late message and a delayed one between
    them; and what is late in the end is put in front of what still waits. -/
theorem delivery_order_crossing :
    ∃ (past : List (BrokerEvent Ticket)) (b : Broker Ticket) (d : Delivery Ticket)
      (mid b' : Broker Ticket) (k : Nat), Passes ⟨50, by decide⟩ past b ∧
      receipts past = [2, 9, 7, 1, 7] ∧ timeouts past = [7] ∧
      (receipts past).filter (fun k => k = 1 ∨ k = 2) <:+ [2, 1] ∧
      (∃ p ∈ b.pending "q", ∃ ready ∈ readyAt p.message.number past,
        p.visibleAt ≤ 200 ↔ ready ≤ 200) ∧
      (∃ ready ∈ readyAt d.message.number past, ready ≤ 200) ∧
      b.Does 200 (.requeued k) mid ∧ mid.deliver 200 "q" = (.ok (some d), b') ∧
      (∃ front, mid.pending "q" = front ++ b.pending "q" ∧
        ∀ p, p ∈ front ↔ b.Late 200 "q" p.message ∧ p.visibleAt = 200) ∧
      ∃ (past : List (BrokerEvent TaskMessage)) (b : Broker TaskMessage)
        (d : Option (Delivery TaskMessage)) (b' : Broker TaskMessage),
        Passes ⟨50, by decide⟩ past b ∧ b.perform 200 (.receive "q") = .ok (.received "q" d, b') ∧
        (d.isSome ↔ (∃ p ∈ b.pending "q", p.visibleAt ≤ 200) ∨ ∃ m, b.Late 200 "q" m) := by
  have hreturns : (crossing numbered).toOption.isSome := by
    decide +kernel
  have hmessages : (crossing fun n => (numbered n).message).toOption.map (fun r => r.1.length) =
      some 10 := by
    decide +kernel
  cases hcrossing : crossing numbered with
  | error _ =>
    rw [hcrossing] at hreturns
    cases hreturns
  | ok r =>
  obtain ⟨past, b⟩ := r
  cases hsame : crossing fun n => (numbered n).message with
  | error _ =>
    rw [hsame] at hmessages
    cases hmessages
  | ok r =>
  obtain ⟨same, b₂⟩ := r
  rw [hsame] at hmessages
  have hlong : same.length = 10 := Option.some.inj hmessages
  -- What is computed of the run holds of its history and its broker.
  have hcomputed {β : Type} (f : List (BrokerEvent Ticket) × Broker Ticket → β) {x : β}
      (h : (crossing numbered).toOption.map f = some x) : f (past, b) = x := by
    rw [hcrossing] at h
    exact Option.some.inj h
  have hreceipts : receipts past = [2, 9, 7, 1, 7] :=
    hcomputed (fun r => receipts r.1) (by decide +kernel)
  have htimeouts : timeouts past = [7] := hcomputed (fun r => timeouts r.1) (by decide +kernel)
  have hprompt : prompt past = [("q", 2), ("q", 1), ("q", 7)] :=
    hcomputed (fun r => prompt r.1) (by decide +kernel)
  have hnumbers : numbers (acts past) = [2, 4, 1, 9, 7] :=
    hcomputed (fun r => numbers (acts r.1)) (by decide +kernel)
  have htimes : past.map (·.time) = [60, 60, 60, 20, 20, 20, 10, 10, 0, 0] :=
    hcomputed (fun r => r.1.map (·.time)) (by decide +kernel)
  have hnacks₁ : nacks 1 (acts past) = 0 :=
    hcomputed (fun r => nacks 1 (acts r.1)) (by decide +kernel)
  have hnacks₂ : nacks 2 (acts past) = 0 :=
    hcomputed (fun r => nacks 2 (acts r.1)) (by decide +kernel)
  have hlength : (b.pending "q").length = 1 :=
    hcomputed (fun r => (r.2.pending "q").length) (by decide +kernel)
  have hfound : (b.receive 200 "q").1.toOption.join.isSome = true :=
    hcomputed (fun r => (r.2.receive 200 "q").1.toOption.join.isSome) (by decide +kernel)
  have hpasses := passes_crossing hcrossing
  obtain ⟨hmessage, hticket⟩ := delivery_order ⟨50, by decide⟩
  obtain ⟨horder, htime⟩ := hticket past b hpasses (by rw [hnumbers]; decide)
  have huntil : Until past 200 := by
    intro e he
    have hmem : e.time ∈ past.map (·.time) := List.mem_map_of_mem he
    rw [htimes] at hmem
    exact (by decide : ∀ t ∈ [60, 60, 60, 20, 20, 20, 10, 10, 0, 0], t ≤ 200) _ hmem
  obtain ⟨hvisible, hdue, hsplit, hfront⟩ := htime 200 huntil
  obtain ⟨p, hp⟩ := List.exists_mem_of_length_pos (by omega : 0 < (b.pending "q").length)
  rcases hreceive : b.receive 200 "q" with ⟨_ | _ | d, b'⟩
  · rw [hreceive] at hfound
    cases hfound
  · rw [hreceive] at hfound
    cases hfound
  have hdoes : b.Does 200 (.received "q" (some d)) b' := .receive (List.Perm.refl _) hreceive
  obtain ⟨k, mid, hrequeued, hdeliver⟩ := hsplit "q" (some d) b' hdoes
  obtain ⟨d₂, b₂', hperform, hiff⟩ := (hmessage same b₂ (passes_crossing hsame)).2 200 "q"
    ⟨by decide, by rw [acts, List.length_map, hlong]; decide⟩
  refine ⟨past, b, d, mid, b', k, hpasses, hreceipts, htimeouts, ?_, ⟨p, hp, hvisible "q" p hp⟩,
    hdue "q" d b' hdoes, hrequeued, hdeliver, hfront k mid hrequeued "q", same, b₂, d₂, b₂',
    passes_crossing hsame, hperform, hiff⟩
  refine horder "q" 1 2 (by rw [hprompt]; decide) ⟨hnacks₁, ?_⟩ ⟨hnacks₂, ?_⟩
  · rw [htimeouts]
    decide
  · rw [htimeouts]
    decide

end Broker

end ExecutionControl
