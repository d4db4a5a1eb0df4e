import ExecutionControl.Proofs.Delivery.Conservation
import ExecutionControl.Proofs.Delivery.Timeline

/-! # What waits, and for what

    A queue has messages in its middle whose time has not come, and others are put in at both of
    its ends. Only messages that were handed out before are put back. The others stand in a
    queue in the order in which they were published, each with the time that was set for it
    then (`Timely.lined`); and a message that was handed out waits again only if it was handed
    back or found late (`Timely.again`).

    `Timely` is kept up by every call (`Timely.does`), and so it holds after every run
    (`Passes.timely`).
-/

namespace ExecutionControl

/-- What a call handed out. -/
def BrokerAct.delivery? {α : Type} : BrokerAct α → Option (Delivery α)
  | .received _ d => d
  | _ => none

/-- What a call published to a queue, with the time from which it may be handed out. -/
def BrokerEvent.offer? (queue : String) (e : BrokerEvent Ticket) : Option (Pending Ticket) :=
  match e.act with
  | .published name t delay => if name = queue then some ⟨t, e.time + delay.nanos⟩ else none
  | _ => none

namespace Broker

/-! ### What a history says -/

/-- The numbers of the tickets that were handed out, the latest first. -/
def receipts (past : List (BrokerEvent Ticket)) : List Nat :=
  past.filterMap fun e => e.act.delivery?.map (·.message.number)

/-- What was published to a queue, the latest first. -/
def offers (queue : String) (past : List (BrokerEvent Ticket)) : List (Pending Ticket) :=
  past.filterMap (BrokerEvent.offer? queue)

/-- The time that was last set for a ticket, when it was published or handed back. -/
def readyAt (n : Nat) : List (BrokerEvent Ticket) → Option Moment
  | [] => none
  | e :: past =>
    match e.act with
    | .published _ t delay => if t.number = n then some (e.time + delay.nanos) else readyAt n past
    | .nacked tag (some delay) (.ok _) =>
      if n ∈ (delivered tag (acts past)).map (·.message.number) then some (e.time + delay.nanos)
      else readyAt n past
    | _ => readyAt n past

/-- The numbers of the tickets whose deliveries a call found late. -/
def lateNumbers (tags : List Nat) (past : List (BrokerEvent Ticket)) : List Nat :=
  tags.filterMap fun tag => (delivered tag (acts past)).map (·.message.number)

/-- The numbers of the tickets whose deliveries were found late. -/
def timeouts : List (BrokerEvent Ticket) → List Nat
  | [] => []
  | e :: past => lateNumbers e.late past ++ timeouts past

/-- A ticket that was neither handed back nor found late. -/
structure Undisturbed (past : List (BrokerEvent Ticket)) (n : Nat) : Prop where
  nacks_eq : nacks n (acts past) = 0
  notMem_timeouts : n ∉ timeouts past

/-- A message that was never handed out. -/
def fresh (past : List (BrokerEvent Ticket)) (p : Pending Ticket) : Bool :=
  p.message.number ∉ receipts past

/-- What holds of the messages of a broker at a time, if `out` are the tickets that were put back
    because of their age. -/
structure Timely (past : List (BrokerEvent Ticket)) (out : List Nat) (now : Moment)
    (b : Broker Ticket) : Prop where
  /-- What was never handed out stands in line as it was published. -/
  lined : ∀ queue,
    (b.pending queue).filter (fresh past) = ((offers queue past).filter (fresh past)).reverse
  /-- A message waits for the time that was set for it, unless this was over before. -/
  ready : ∀ queue, ∀ p ∈ b.pending queue, ∃ ready ∈ readyAt p.message.number past,
    ready ≤ p.visibleAt ∧ (p.visibleAt = ready ∨ p.visibleAt ≤ now)
  flying : ∀ (tag : Nat) (f : Flight Ticket), b.inFlight[tag]? = some f →
    f.message.number ∈ receipts past ∧ ∃ ready ∈ readyAt f.message.number past, ready ≤ now
  /-- What was handed out and waits again was put back. -/
  again : ∀ queue, ∀ p ∈ b.pending queue, p.message.number ∈ receipts past →
    p.message.number ∈ out ∨ nacks p.message.number (acts past) ≠ 0
  known : ∀ n ∈ receipts past, n ∈ numbers (acts past)

variable {past past' : List (BrokerEvent Ticket)} {e e₁ e₂ : BrokerEvent Ticket}
  {b b' : Broker Ticket} {now time : Moment} {queue : String} {out : List Nat} {n tag : Nat}
  {tags : List Nat} {f : Flight Ticket} {p p₁ p₂ : Pending Ticket} {t t₁ t₂ : Ticket}

theorem fresh_iff : fresh past p = true ↔ p.message.number ∉ receipts past := decide_eq_true_iff

/-- Once a ticket is handed out, it is fresh no longer, and all others are as they were. -/
theorem filter_fresh_of_receipt (h : receipts past' = n :: receipts past)
    (ps : List (Pending Ticket)) :
    ps.filter (fresh past') =
      (ps.filter (fresh past)).filter fun p => p.message.number ≠ n := by
  rw [List.filter_filter]
  refine List.filter_congr fun p _ => ?_
  simp only [fresh, h, List.mem_cons, not_or, Bool.decide_and]

/-- Tickets are published to a queue under numbers of their own. -/
theorem offers_sublist (queue : String) (past : List (BrokerEvent Ticket)) :
    ((offers queue past).map (·.message.number)).Sublist (numbers (acts past)) := by
  induction past with
  | nil => exact List.Sublist.refl _
  | cons e past ih =>
    rw [acts_cons, numbers_cons]
    cases hact : e.act with
    | published name t delay =>
      by_cases hname : name = queue
      · have hoffers : offers queue (e :: past) =
            ⟨t, e.time + delay.nanos⟩ :: offers queue past := by
          simp [offers, BrokerEvent.offer?, hact, hname]
        rw [hoffers]
        exact ih.cons_cons _
      · have hoffers : offers queue (e :: past) = offers queue past := by
          simp [offers, BrokerEvent.offer?, hact, hname]
        rw [hoffers]
        exact ih.cons _
    | _ =>
      have hoffers : offers queue (e :: past) = offers queue past := by
        simp [offers, BrokerEvent.offer?, hact]
      rw [hoffers]
      exact ih

/-! ### One place for one number -/

/-- Whatever has one number is at one place. -/
theorem Sound.place_unique {acts : List (BrokerAct Ticket)} {src dst : Place} {i j : Item}
    (h : Sound acts b) (hi : i ∈ b.items acts src) (hj : j ∈ b.items acts dst)
    (hn : i.number = j.number) : src = dst := by
  obtain ⟨p, hp, hnumber⟩ := List.mem_map.mp (h.conserved.mem_numbers hi)
  obtain ⟨place, hlies⟩ := h.conserved.lies p hp
  rw [(hlies.eq_of_mem hi hnumber.symm).1, (hlies.eq_of_mem hj (hn ▸ hnumber.symm)).1]

variable {history : List (BrokerAct Ticket)}

theorem mem_items_pending (hp : p ∈ b.pending queue) :
    (⟨p.message, some queue⟩ : Item) ∈ b.items history (.queue queue) :=
  List.mem_map_of_mem (f := fun p : Pending Ticket => (⟨p.message, some queue⟩ : Item)) hp

theorem mem_items_inFlight (hf : b.inFlight[tag]? = some f) :
    (⟨f.message, some f.queue⟩ : Item) ∈ b.items history (.inFlight tag) :=
  items_inFlight hf ▸ List.mem_singleton.mpr rfl

/-- What waits is not in flight. -/
theorem Sound.pending_ne (h : Sound history b) (hp : p ∈ b.pending queue)
    (hf : b.inFlight[tag]? = some f) : p.message.number ≠ f.message.number := by
  intro hn
  have hplace := h.place_unique (mem_items_pending hp) (mem_items_inFlight hf) hn
  cases hplace

/-- What is in flight under two tags is not one ticket. -/
theorem Sound.inFlight_ne {other : Nat} {g : Flight Ticket} (h : Sound history b)
    (hg : b.inFlight[other]? = some g) (hf : b.inFlight[tag]? = some f) (hne : other ≠ tag) :
    g.message.number ≠ f.message.number := by
  intro hn
  have hplace := h.place_unique (mem_items_inFlight hg) (mem_items_inFlight hf) hn
  cases hplace
  exact hne rfl

theorem Sound.pending_known (h : Sound history b) (hp : p ∈ b.pending queue) :
    p.message.number ∈ numbers history :=
  h.conserved.mem_numbers (mem_items_pending hp)

theorem Sound.inFlight_known (h : Sound history b) (hf : b.inFlight[tag]? = some f) :
    f.message.number ∈ numbers history :=
  h.conserved.mem_numbers (mem_items_inFlight hf)

/-! ### One call -/

theorem Timely.start (visibility : Duration) : Timely [] [] now { visibility } where
  lined queue := by simp [pending, offers]
  ready queue p hp := by simp [pending] at hp
  flying tag f hf := by simp at hf
  again queue p hp := by simp [pending] at hp
  known n hn := by cases hn

theorem Timely.later (h : Timely past out now b) (hle : now ≤ time) : Timely past out time b where
  lined := h.lined
  ready queue p hp := by
    obtain ⟨ready, hready, hge, hor⟩ := h.ready queue p hp
    exact ⟨ready, hready, hge, hor.imp_right fun hpast => Nat.le_trans hpast hle⟩
  flying tag f hf := by
    obtain ⟨hmem, ready, hready, hpast⟩ := h.flying tag f hf
    exact ⟨hmem, ready, hready, Nat.le_trans hpast hle⟩
  again := h.again
  known := h.known

/-- A call that at most ends deliveries. -/
theorem Timely.keep (h : Timely past out now b)
    (hpending : ∀ queue, b'.pending queue = b.pending queue)
    (hin : ∀ (tag : Nat) (f : Flight Ticket), b'.inFlight[tag]? = some f →
      b.inFlight[tag]? = some f)
    (hoffers : ∀ queue, offers queue past' = offers queue past)
    (hreceipts : receipts past' = receipts past) (hready : ∀ n, readyAt n past' = readyAt n past)
    (hnacks : ∀ n, nacks n (acts past) ≤ nacks n (acts past'))
    (hnumbers : numbers (acts past') = numbers (acts past)) : Timely past' out now b' where
  lined queue := by
    have hfresh : fresh past' = fresh past := by
      funext p
      simp only [fresh, hreceipts]
    rw [hpending, hoffers, hfresh]
    exact h.lined queue
  ready queue p hp := by
    rw [hready]
    exact h.ready queue p (hpending queue ▸ hp)
  flying tag f hf := by
    rw [hreceipts, hready]
    exact h.flying tag f (hin tag f hf)
  again queue p hp hmem := by
    rw [hreceipts] at hmem
    have hle := hnacks p.message.number
    exact (h.again queue p (hpending queue ▸ hp) hmem).imp_right fun hne => by omega
  known n hn := by
    rw [hreceipts] at hn
    rw [hnumbers]
    exact h.known n hn

/-- A message that is published under a new number stands last. -/
theorem Timely.publish {delay : Duration} {late : List Nat} (h : Timely past out now b)
    (hs : Sound (acts past) b) (hnew : t.number ∉ numbers (acts past)) :
    Timely (⟨now, .published queue t delay, late⟩ :: past) out now
      (b.setPending queue (b.pending queue ++ [⟨t, now + delay.nanos⟩])) where
  lined name := by
    by_cases hname : name = queue
    · subst hname
      have hfresh : fresh past ⟨t, now + delay.nanos⟩ = true :=
        fresh_iff.mpr fun hmem => hnew (h.known _ hmem)
      have hoffers : offers name (⟨now, .published name t delay, late⟩ :: past) =
          ⟨t, now + delay.nanos⟩ :: offers name past := by
        simp [offers, BrokerEvent.offer?]
      rw [pending_setPending_self, hoffers]
      show (b.pending name ++ _).filter (fresh past) =
        ((_ :: offers name past).filter (fresh past)).reverse
      rw [List.filter_append, List.filter_cons_of_pos hfresh, List.filter_cons_of_pos hfresh,
        List.reverse_cons, h.lined]
      rfl
    · have hoffers : offers name (⟨now, .published queue t delay, late⟩ :: past) =
          offers name past := by
        simp [offers, BrokerEvent.offer?, Ne.symm hname]
      rw [pending_setPending_of_ne b _ hname, hoffers]
      exact h.lined name
  ready name p hp := by
    -- The times of all other messages are as they were, for they have other numbers.
    have hold : ∀ p ∈ b.pending name,
        ∃ ready ∈ readyAt p.message.number (⟨now, .published queue t delay, late⟩ :: past),
          ready ≤ p.visibleAt ∧ (p.visibleAt = ready ∨ p.visibleAt ≤ now) := by
      intro p hp
      have hne : t.number ≠ p.message.number := fun heq => hnew (heq ▸ hs.pending_known hp)
      simp only [readyAt, hne, if_false]
      exact h.ready name p hp
    by_cases hname : name = queue
    · subst hname
      rw [pending_setPending_self] at hp
      rcases List.mem_append.mp hp with hp | hp
      · exact hold p hp
      · obtain rfl := List.mem_singleton.mp hp
        exact ⟨now + delay.nanos, by simp [readyAt], Nat.le_refl _, .inl rfl⟩
    · rw [pending_setPending_of_ne b _ hname] at hp
      exact hold p hp
  flying tag f hf := by
    have hne : t.number ≠ f.message.number := fun heq => hnew (heq ▸ hs.inFlight_known hf)
    simp only [readyAt, hne, if_false]
    exact h.flying tag f hf
  again name p hp hmem := by
    by_cases hname : name = queue
    · subst hname
      rw [pending_setPending_self] at hp
      rcases List.mem_append.mp hp with hp | hp
      · exact h.again name p hp hmem
      · obtain rfl := List.mem_singleton.mp hp
        exact absurd (h.known _ hmem) hnew
    · rw [pending_setPending_of_ne b _ hname] at hp
      exact h.again name p hp hmem
  known n hn := List.mem_cons_of_mem _ (h.known n hn)

/-- Deliveries that are put back are not fresh, and so the others keep their order. -/
theorem Timely.requeueAll {more : List Nat} (h : Timely past out now b) (htags : tags.Nodup)
    (hmore : ∀ tag ∈ tags, ∀ f : Flight Ticket, b.inFlight[tag]? = some f →
      f.message.number ∈ more) :
    Timely past (more ++ out) now (b.requeueAll now tags) := by
  have hfront : ∀ queue, ∀ p ∈ tags.filterMap (b.backOn now queue), ∃ tag ∈ tags,
      ∃ f : Flight Ticket, b.inFlight[tag]? = some f ∧ p = ⟨f.message, now⟩ := by
    intro queue p hp
    obtain ⟨tag, htag, hback⟩ := List.mem_filterMap.mp hp
    obtain ⟨f, hf, -, hp⟩ := backOn_eq_some.mp hback
    exact ⟨tag, htag, f, hf, hp⟩
  constructor
  case lined =>
    intro queue
    have hnone : (tags.filterMap (b.backOn now queue)).filter (fresh past) = [] := by
      rw [List.filter_eq_nil_iff]
      intro p hp
      obtain ⟨tag, -, f, hf, rfl⟩ := hfront queue p hp
      rw [fresh_iff, not_not]
      exact (h.flying tag f hf).1
    rw [pending_requeueAll htags, List.filter_append, hnone, List.nil_append]
    exact h.lined queue
  case ready =>
    intro queue p hp
    rw [pending_requeueAll htags] at hp
    rcases List.mem_append.mp hp with hp | hp
    · obtain ⟨tag, -, f, hf, rfl⟩ := hfront queue p hp
      obtain ⟨-, ready, hready, hpast⟩ := h.flying tag f hf
      exact ⟨ready, hready, hpast, .inr (Nat.le_refl _)⟩
    · exact h.ready queue p hp
  case flying =>
    intro tag f hf
    rw [inFlight_requeueAll] at hf
    split at hf
    · cases hf
    · exact h.flying tag f hf
  case again =>
    intro queue p hp hmem
    rw [pending_requeueAll htags] at hp
    rcases List.mem_append.mp hp with hp | hp
    · obtain ⟨tag, htag, f, hf, rfl⟩ := hfront queue p hp
      exact .inl (List.mem_append_left _ (hmore tag htag f hf))
    · exact (h.again queue p hp hmem).imp_left (List.mem_append_right _)
  case known => exact h.known

/-- What is handed out was visible, and is not fresh from then on. -/
theorem Timely.deliver {d : Option (Delivery Ticket)} {late : List Nat}
    (h : Timely past out now b) (hs : Sound (acts past) b)
    (hdeliver : b.deliver now queue = (.ok d, b')) :
    Timely (⟨now, .received queue d, late⟩ :: past) out now b' := by
  have hs' : Sound (.received queue d :: acts past) b' := hs.deliver hdeliver
  obtain ⟨rfl, rfl⟩ | ⟨t, rest, deadline, htake, rfl, rfl⟩ := deliver_ok hdeliver
  · exact h.keep (fun _ => rfl) (fun _ _ hf => hf) (fun _ => rfl) rfl (fun _ => rfl)
      (fun _ => Nat.le_refl _) rfl
  obtain ⟨before, p, after, hps, -, hvisible, rfl, rfl⟩ := takeVisible_eq_some htake
  have hp : p ∈ b.pending queue := hps ▸ List.mem_append_right _ List.mem_cons_self
  generalize hpast' : (⟨now, .received queue (some ⟨b.lastTag + 1, queue, p.message⟩), late⟩ :
    BrokerEvent Ticket) :: past = past'
  have hreceipts : receipts past' = p.message.number :: receipts past := hpast' ▸ rfl
  have hoffers : ∀ name, offers name past' = offers name past := fun _ => hpast' ▸ rfl
  have hready : ∀ n, readyAt n past' = readyAt n past := fun _ => hpast' ▸ rfl
  have hnacks : ∀ n, nacks n (acts past') = nacks n (acts past) := fun _ => hpast' ▸ rfl
  have hnumbers : numbers (acts past') = numbers (acts past) := hpast' ▸ rfl
  have hpending : ∀ name, ((b.setPending queue (before ++ after)).launch queue p.message
      deadline).pending name = (b.setPending queue (before ++ after)).pending name := fun _ => rfl
  -- No queue gains a message, and only the one that is handed out is lost.
  have hsub : ∀ name, ∀ q ∈ (b.setPending queue (before ++ after)).pending name,
      q ∈ b.pending name := by
    intro name q hq
    by_cases hname : name = queue
    · subst hname
      rw [pending_setPending_self] at hq
      rw [hps]
      rcases List.mem_append.mp hq with hq | hq
      · exact List.mem_append_left _ hq
      · exact List.mem_append_right _ (List.mem_cons_of_mem _ hq)
    · rwa [pending_setPending_of_ne b _ hname] at hq
  have hkept : ∀ name, ((b.setPending queue (before ++ after)).pending name).filter (fresh past') =
      (b.pending name).filter (fresh past') := by
    intro name
    by_cases hname : name = queue
    · subst hname
      have hstale : ¬ fresh past' p = true := by
        rw [fresh_iff, hreceipts, not_not]
        exact List.mem_cons_self
      rw [pending_setPending_self, hps, List.filter_append, List.filter_append,
        List.filter_cons_of_neg hstale]
    · rw [pending_setPending_of_ne b _ hname]
  constructor
  case lined =>
    intro name
    rw [hpending, hkept, filter_fresh_of_receipt hreceipts, filter_fresh_of_receipt hreceipts,
      hoffers, h.lined, List.filter_reverse]
  case ready =>
    intro name q hq
    rw [hready]
    exact h.ready name q (hsub name q hq)
  case flying =>
    intro tag f hf
    rw [hreceipts, hready]
    rw [inFlight_launch] at hf
    split at hf
    · cases hf
      obtain ⟨ready, hset, hge, -⟩ := h.ready queue p hp
      exact ⟨List.mem_cons_self, ready, hset, Nat.le_trans hge hvisible⟩
    · obtain ⟨hmem, hset⟩ := h.flying tag f hf
      exact ⟨List.mem_cons_of_mem _ hmem, hset⟩
  case again =>
    intro name q hq hmem
    have hin : ((b.setPending queue (before ++ after)).launch queue p.message
        deadline).inFlight[b.lastTag + 1]? = some ⟨queue, p.message, deadline⟩ := by
      rw [inFlight_launch, if_pos rfl]
    rw [hreceipts] at hmem
    rw [hnacks]
    rcases List.mem_cons.mp hmem with hn | hmem
    · exact absurd hn (hs'.pending_ne hq hin)
    · exact h.again name q (hsub name q hq) hmem
  case known =>
    intro n hn
    rw [hreceipts] at hn
    rw [hnumbers]
    rcases List.mem_cons.mp hn with hn | hn
    · exact hn ▸ hs.pending_known hp
    · exact h.known n hn

/-- What is handed back after a delay stands last, and is not fresh. -/
theorem Timely.putBack {delay : Duration} {late : List Nat} (h : Timely past out now b)
    (hs : Sound (acts past) b) (hf : b.inFlight[tag]? = some f) :
    Timely (⟨now, .nacked tag (some delay) (.ok ()), late⟩ :: past) out now
      ((b.land tag).setPending f.queue
        ((b.land tag).pending f.queue ++ [⟨f.message.failed 1, now + delay.nanos⟩])) := by
  have hdelivered := hs.tagged.delivered_eq tag f hf
  have hreceipt : f.message.number ∈ receipts past := (h.flying tag f hf).1
  -- Nothing changes for other tickets.
  have hready : ∀ n, n ≠ f.message.number →
      readyAt n (⟨now, .nacked tag (some delay) (.ok ()), late⟩ :: past) = readyAt n past := by
    intro n hn
    simp [readyAt, hdelivered, Ne.symm hn]
  have hnacks : ∀ n, nacks n (.nacked tag (some delay) (.ok ()) :: acts past) =
      nacks n (acts past) + if n = f.message.number then 1 else 0 := by
    intro n
    simp [nacks, hdelivered, eq_comm]
  have hmem : ∀ name, ∀ p ∈ ((b.land tag).setPending f.queue
      ((b.land tag).pending f.queue ++ [⟨f.message.failed 1, now + delay.nanos⟩])).pending name,
      p ∈ b.pending name ∨ p = ⟨f.message.failed 1, now + delay.nanos⟩ := by
    intro name p hp
    by_cases hname : name = f.queue
    · subst hname
      rw [pending_setPending_self] at hp
      exact (List.mem_append.mp hp).imp_right List.mem_singleton.mp
    · rw [pending_setPending_of_ne _ _ hname] at hp
      exact .inl hp
  constructor
  case lined =>
    intro name
    show List.filter (fresh past) _ = ((offers name past).filter (fresh past)).reverse
    by_cases hname : name = f.queue
    · subst hname
      have hstale : ¬ fresh past ⟨f.message.failed 1, now + delay.nanos⟩ = true := by
        rw [fresh_iff, not_not]
        exact hreceipt
      rw [pending_setPending_self, List.filter_append, List.filter_cons_of_neg hstale,
        List.filter_nil, List.append_nil, pending_land]
      exact h.lined f.queue
    · rw [pending_setPending_of_ne _ _ hname, pending_land]
      exact h.lined name
  case ready =>
    intro name p hp
    rcases hmem name p hp with hp | rfl
    · rw [hready _ (hs.pending_ne hp hf)]
      exact h.ready name p hp
    · exact ⟨now + delay.nanos, by simp [readyAt, hdelivered], Nat.le_refl _, .inl rfl⟩
  case flying =>
    intro other g hg
    rw [inFlight_setPending, inFlight_land] at hg
    split at hg
    · cases hg
    · rename_i hne
      rw [hready _ (hs.inFlight_ne hg hf (Ne.symm hne))]
      exact h.flying other g hg
  case again =>
    intro name p hp hreceived
    rw [acts_cons, hnacks]
    rcases hmem name p hp with hp | rfl
    · exact (h.again name p hp hreceived).imp_right fun hne => by omega
    · exact .inr (by simp)
  case known => exact h.known

/-! ### Runs -/

/-- Whatever is found late is told by the history. -/
theorem Timely.requeueLate (h : Timely past (timeouts past) now b) (hs : Sound (acts past) b)
    (htags : tags.Perm (b.expired now)) :
    Timely past (lateNumbers (b.expired now) past ++ timeouts past) now
      (b.requeueAll now tags) := by
  refine h.requeueAll (htags.nodup_iff.mpr (nodup_expired b now)) ?_
  intro tag htag f hf
  refine List.mem_filterMap.mpr ⟨tag, htags.mem_iff.mp htag, ?_⟩
  rw [hs.tagged.delivered_eq tag f hf]
  rfl

theorem Timely.does {act : BrokerAct Ticket} (h : Timely past (timeouts past) now b)
    (hs : Sound (acts past) b) (hdoes : b.Does now act b')
    (hfresh : ∀ q ∈ act.published?, q.2.number ∉ numbers (acts past)) :
    Timely (⟨now, act, b.lateFor now act⟩ :: past)
      (timeouts (⟨now, act, b.lateFor now act⟩ :: past)) now b' := by
  cases hdoes with
  | publish hpublish =>
    obtain rfl := publish_ok_at hpublish
    exact h.publish hs (hfresh _ rfl)
  | @receive queue d tags _ htags hdeliver =>
    exact (h.requeueLate hs htags).deliver (hs.requeueAll tags) hdeliver
  | requeueExpired htags =>
    exact (h.requeueLate hs htags).keep (fun _ => rfl) (fun _ _ hf => hf) (fun _ => rfl) rfl
      (fun _ => rfl) (fun _ => Nat.le_refl _) rfl
  | @ack tag result _ hack =>
    have hpending : ∀ queue, b'.pending queue = b.pending queue := by
      intro queue
      unfold Broker.ack at hack
      split at hack <;> cases hack <;> rfl
    refine h.keep hpending ?_ (fun _ => rfl) rfl (fun _ => rfl) (fun _ => Nat.le_refl _) rfl
    intro other f hf
    unfold Broker.ack at hack
    split at hack <;> cases hack
    · exact hf
    · rw [inFlight_land] at hf
      split at hf
      · cases hf
      · exact hf
  | @nack tag requeueAfter result _ hnack =>
    obtain ⟨rfl, rfl⟩ | ⟨f, m, hf, hfailed, rfl, hput⟩ := nack_ok hnack
    · refine h.keep (fun _ => rfl) (fun _ _ hf => hf) (fun _ => rfl) rfl (fun n => ?_)
        (fun _ => Nat.le_refl _) rfl
      cases requeueAfter <;> rfl
    obtain rfl := Ticket.failedOnce_eq hfailed
    cases requeueAfter with
    | some delay =>
      obtain rfl := publish_ok_at hput
      exact h.putBack hs hf
    | none =>
      cases hput
      refine h.keep (fun _ => rfl) ?_ (fun _ => rfl) rfl (fun _ => rfl)
        (fun _ => Nat.le_add_right _ _) rfl
      intro other g hg
      have hland : (b.land tag).inFlight[other]? = some g := hg
      rw [inFlight_land] at hland
      split at hland
      · cases hland
      · exact hland

variable {visibility : Duration}

theorem numbers_nodup_tail (h : (numbers (acts (e :: past))).Nodup) :
    (numbers (acts past)).Nodup ∧ ∀ q ∈ e.act.published?, q.2.number ∉ numbers (acts past) := by
  rw [acts_cons, numbers_cons] at h
  obtain ⟨-, hrest, hapart⟩ := List.nodup_append.mp h
  refine ⟨hrest, fun q hq hmem => ?_⟩
  refine hapart q.2.number ?_ q.2.number hmem rfl
  exact List.mem_map_of_mem (f := fun q => q.2.number) (Option.mem_toList.mpr hq)

theorem Passes.timely (h : Passes visibility past b) (hnodup : (numbers (acts past)).Nodup)
    (htime : Until past now) : Timely past (timeouts past) now b := by
  induction h generalizing now with
  | start => exact .start visibility
  | @call past b time act b' h hpast hdoes ih =>
    obtain ⟨hrest, hfresh⟩ := numbers_nodup_tail hnodup
    have hnow : Timely past (timeouts past) time b := ih hrest hpast
    exact (hnow.does (h.runs.sound hrest) hdoes hfresh).later (htime _ List.mem_cons_self)

end Broker

end ExecutionControl
