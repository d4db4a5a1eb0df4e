import ExecutionControl.Proofs.Coordination.Locks
import ExecutionControl.Proofs.Ensures
import Mathlib.Algebra.Order.Floor.Div

/-! # Waiting for a lock

    Whoever waits for a lock attempts to take it, and sleeps between two attempts until its time
    is up. Around it anything may go on: others take the lock, give it back or let it run out,
    calls fail, and requests are answered late (`Surroundings`). Only a sleep is never shorter
    than it was asked to be.

    That alone decides how long it takes. After as many sleeps as fit into the wait, rounded
    up, the time is up, so that there is one attempt more than that at most; and a wait that
    ends without the lock did not end early (`lock_wait_decided`). It is the clock that ends
    the wait (`Polling.run`): no wait that may go on for more rounds than that comes to their
    end, and so it does not matter for how many more.
-/

namespace ExecutionControl

/-! ### What goes on around a program -/

/-- A request that was made, with the services as it found them and as it left them. -/
structure Encounter where
  found : Shared
  request : Request
  reply : Checked request.Reply
  left : Shared

/-- What a program has met so far, the latest first. -/
abbrev Trail := List Encounter

/-- What goes on around a program. All of it may depend on what has been before. -/
structure Surroundings where
  /-- What the others have made of the store when the next request comes to it. -/
  store : Trail → CoordStore
  /-- How long the next request waits for its turn. -/
  delay : Trail → Nat
  /-- The error with which the next call to the store fails, if it does. -/
  fault : Trail → Option CoordError

/-- The services as the next request finds them. -/
def Surroundings.found (W : Surroundings) (p : Shared × Trail) : Shared :=
  { p.1 with coord := W.store p.2, now := p.1.now + W.delay p.2 }

/-- The services that a program meets in its surroundings. -/
def Surroundings.answer (W : Surroundings) : Program.Services (Shared × Trail) := fun r p =>
  let (reply, left) := (W.found p).answerUnless (fun _ => W.fault p.2) r
  (reply, left, ⟨W.found p, r, reply, left⟩ :: p.2)

namespace Program

variable {α σ : Type} {serve : Services σ}

/-- The terms of services that give one answer, where `O` has to hold after an overflow. -/
def answering (serve : Services σ) (O : Overflow → σ → Prop) : Terms σ := fun r Q s =>
  match serve r s with
  | (.ok reply, s') => Q reply s'
  | (.error o, s') => O o s'

/-- What a program ensures holds where it ends. -/
theorem run_of_ensures {prog : Program α} {P : Checked α → σ → Prop} {s : σ}
    (h : prog.ensures (answering serve fun o => P (.error o)) (fun a => P (.ok a)) s) :
    P (prog.run serve s).1 (prog.run serve s).2 := by
  induction prog generalizing s with
  | done a => exact h
  | ask r next ih =>
    unfold ensures answering at h
    rw [run_ask]
    rcases hanswer : serve r s with ⟨o | reply, s'⟩
    all_goals rw [hanswer] at h
    · exact h
    · exact ih reply h

end Program

/-! ### Attempts -/

/-- What an attempt to take a lock may find. -/
inductive Finding where
  | held
  | free
  | failed (e : CoordError)
  deriving DecidableEq

/-- What a request found, if it was an attempt to take a lock. -/
def Encounter.finding? (key : String) : Encounter → Option Finding
  | ⟨_, .coord (.tryLock ..), .ok (.error e), _⟩ => some (.failed e)
  | ⟨found, .coord (.tryLock ..), _, _⟩ =>
    some (if (found.coord.live? found.now key).isSome then .held else .free)
  | _ => none

/-- What the attempts to take a lock have found, the latest first. -/
def Trail.findings (key : String) (trail : Trail) : List Finding :=
  trail.filterMap (Encounter.finding? key)

/-- All attempts were for one lock under one token. -/
def Trail.Seeks (key token : String) (ttl : Duration) (trail : Trail) : Prop :=
  ∀ x ∈ trail, (x.finding? key).isSome → x.request = .coord (.tryLock key token ttl)

/-- How an attempt is answered that finds this. -/
def Finding.Answers (key token : String) (ttl : Duration) (left : Shared)
    (reply : Checked (Except CoordError Bool)) : Finding → Prop
  | .held => reply = .ok (.ok false)
  | .free =>
    (left.now + ttl.nanos < Moment.bound ∧ reply = .ok (.ok true) ∧
      left.coord.entries[key]? = some ⟨.text token, some (left.now + ttl.nanos)⟩) ∨
    (Moment.bound ≤ left.now + ttl.nanos ∧ reply = .error .deadline)
  | .failed e => reply = .ok (.error e)

theorem Shared.now_le_answerUnless (s : Shared) (fails : CoordCall → Option CoordError)
    (r : Request) : s.now ≤ (s.answerUnless fails r).2.now :=
  (serves_answerUnless (F := .any) (fun _ _ _ => trivial) s r).now_le

/-- How an attempt is answered depends on what it finds. -/
theorem Shared.answerUnless_tryLock {s left : Shared} {fails : CoordCall → Option CoordError}
    {key token : String} {ttl : Duration} {reply : Checked (Except CoordError Bool)}
    (h : s.answerUnless fails (.coord (.tryLock key token ttl)) = (reply, left)) :
    ∃ f : Finding,
      Encounter.finding? key ⟨s, .coord (.tryLock key token ttl), reply, left⟩ = some f ∧
        f.Answers key token ttl left reply := by
  cases hfails : fails (.tryLock key token ttl) with
  | some e =>
    simp only [answerUnless, hfails] at h
    cases h
    exact ⟨.failed e, rfl, rfl⟩
  | none =>
    simp only [answerUnless, hfails, answer, CoordStore.perform, CoordStore.tryLock] at h
    by_cases havailable : s.coord.available = true
    case neg =>
      rw [if_neg havailable] at h
      cases h
      exact ⟨_, rfl, rfl⟩
    rw [if_pos havailable] at h
    by_cases hheld : (s.coord.live? s.now key).isSome = true
    · rw [if_pos hheld] at h
      cases h
      exact ⟨.held, congrArg some (if_pos hheld), rfl⟩
    rw [if_neg hheld, Moment.after] at h
    by_cases hbound : s.now + ttl.nanos < Moment.bound
    · rw [if_pos hbound] at h
      cases h
      refine ⟨.free, congrArg some (if_neg hheld), .inl ?_⟩
      exact ⟨hbound, rfl, CoordStore.entries_put_self⟩
    · rw [if_neg hbound] at h
      cases h
      refine ⟨.free, congrArg some (if_neg hheld), .inr ?_⟩
      exact ⟨Nat.le_of_not_lt hbound, rfl⟩

namespace Finding.Answers

variable {f : Finding} {key token : String} {ttl : Duration} {left : Shared}
  {reply : Checked (Except CoordError Bool)}

theorem refused_iff (h : f.Answers key token ttl left reply) :
    reply = .ok (.ok false) ↔ f = .held := by
  cases f with
  | held => exact iff_of_true h rfl
  | failed e => cases h; exact ⟨nofun, nofun⟩
  | free => rcases h with ⟨-, rfl, -⟩ | ⟨-, rfl⟩ <;> exact ⟨nofun, nofun⟩

theorem failed_iff (h : f.Answers key token ttl left reply) {e : CoordError} :
    reply = .ok (.error e) ↔ f = .failed e := by
  cases f with
  | held => cases h; exact ⟨nofun, nofun⟩
  | failed e' =>
    cases h
    rw [Except.ok.injEq, Except.error.injEq, Finding.failed.injEq]
  | free => rcases h with ⟨-, rfl, -⟩ | ⟨-, rfl⟩ <;> exact ⟨nofun, nofun⟩

theorem taken_iff (h : f.Answers key token ttl left reply) :
    reply = .ok (.ok true) ↔ f = .free ∧ left.now + ttl.nanos < Moment.bound := by
  cases f with
  | held => cases h; exact ⟨nofun, nofun⟩
  | failed e => cases h; exact ⟨nofun, nofun⟩
  | free =>
    rcases h with ⟨hbound, rfl, -⟩ | ⟨hbound, rfl⟩
    · exact iff_of_true rfl ⟨rfl, hbound⟩
    · exact ⟨nofun, fun ⟨_, hlt⟩ => absurd hlt (Nat.not_lt.mpr hbound)⟩

theorem overflow (h : f.Answers key token ttl left reply) {o : Overflow} (ho : reply = .error o) :
    o = .deadline ∧ Moment.bound ≤ left.now + ttl.nanos := by
  subst ho
  cases f with
  | held => cases h
  | failed e => cases h
  | free =>
    rcases h with ⟨-, htaken, -⟩ | ⟨hbound, ho⟩
    · cases htaken
    · cases ho
      exact ⟨rfl, hbound⟩

/-- A lock that was taken is held under its token for its time to live. -/
theorem holds (h : f.Answers key token ttl left reply) (htaken : reply = .ok (.ok true))
    (later : Moment) :
    left.coord.isHeldBy later key token = true ↔ later < left.now + ttl.nanos := by
  subst htaken
  obtain ⟨rfl, hbound⟩ := h.taken_iff.mp rfl
  obtain ⟨-, -, hentry⟩ | ⟨hover, -⟩ := h
  · rw [CoordStore.isHeldBy_iff, CoordStore.datum?, CoordStore.live?_of_entry hentry]
    simp [Entry.isLive]
  · exact absurd hbound (Nat.not_lt.mpr hover)

end Finding.Answers

namespace Admission

/-- How often the interval between two attempts fits into the wait, rounded up. -/
def intervals (a : Admission) : Nat :=
  a.config.lockWait.nanos ⌈/⌉ a.config.lockPollInterval.nanos

/-- How a wait for a lock that started at `start` has ended. -/
structure Waited (a : Admission) (key token : String) (start : Moment)
    (out : Checked (Except CoordError Bool)) (p : Shared × Trail) : Prop where
  seeks : Trail.Seeks key token a.config.lockTtl p.2
  attempts_le : (Trail.findings key p.2).length ≤ a.intervals + 1
  /-- No attempt follows one that did not find the lock held. -/
  last : ∀ f ∈ (Trail.findings key p.2).tail, f = .held
  /-- It ends with the lock exactly if an attempt found it free, unless the time to live of the
      lock reaches beyond the clock. -/
  taken_iff : out = .ok (.ok true) ↔
    .free ∈ Trail.findings key p.2 ∧ p.1.now + a.config.lockTtl.nanos < Moment.bound
  /-- Then the lock is held under the token for its time to live. -/
  holds : out = .ok (.ok true) → ∀ later,
    p.1.coord.isHeldBy later key token = true ↔ later < p.1.now + a.config.lockTtl.nanos
  /-- It ends without the lock only if every attempt found it held, and not early. -/
  refused : out = .ok (.ok false) →
    (∀ f ∈ Trail.findings key p.2, f = .held) ∧ start + a.config.lockWait.nanos ≤ p.1.now
  /-- It ends with an error exactly if an attempt failed with that error. -/
  failed_iff : ∀ e, out = .ok (.error e) ↔ .failed e ∈ Trail.findings key p.2
  /-- There is nothing else that it ends with, unless a deadline lies beyond the clock. -/
  overflow : ∀ o, out = .error o → o = .deadline ∧
    (Moment.bound ≤ start + a.config.lockWait.nanos ∨
      Moment.bound ≤ p.1.now + a.config.lockTtl.nanos)
  /-- Nothing is attempted if the wait itself reaches beyond the clock. -/
  beyond : Moment.bound ≤ start + a.config.lockWait.nanos →
    out = .error .deadline ∧ Trail.findings key p.2 = []

/-- A wait that goes on: all attempts have found the lock held, and the clock shows the time of
    the sleeps. -/
structure Polling (a : Admission) (key token : String) (start : Moment) (attempts sleeps : Nat)
    (p : Shared × Trail) : Prop where
  seeks : Trail.Seeks key token a.config.lockTtl p.2
  findings_eq : Trail.findings key p.2 = List.replicate attempts .held
  slept : start + sleeps * a.config.lockPollInterval.nanos ≤ p.1.now
  sleeps_le : sleeps ≤ a.intervals

variable {a : Admission} {key token : String} {start : Moment} {attempts sleeps : Nat}
  {W : Surroundings} {p : Shared × Trail} {x : Encounter} {s : Shared}

/-! ### The time of the sleeps -/

theorem intervals_le_iff (hpoll : 0 < a.config.lockPollInterval.nanos) {n : Nat} :
    a.intervals ≤ n ↔ a.config.lockWait.nanos ≤ n * a.config.lockPollInterval.nanos := by
  rw [intervals, ceilDiv_le_iff_le_mul hpoll, Nat.mul_comm]

/-- A wait within the reach of the clock has room for fewer sleeps than the clock has readings. -/
theorem intervals_lt_bound (hpoll : 0 < a.config.lockPollInterval.nanos)
    (hwait : start + a.config.lockWait.nanos < Moment.bound) : a.intervals < Moment.bound := by
  have hle : a.intervals ≤ a.config.lockWait.nanos :=
    (intervals_le_iff hpoll).mpr (Nat.le_mul_of_pos_right _ hpoll)
  exact Nat.lt_of_le_of_lt (Nat.le_trans hle (Nat.le_add_left _ start)) hwait

/-- When that many sleeps are over, the time is up. -/
theorem Polling.over (h : a.Polling key token start attempts sleeps p)
    (hpoll : 0 < a.config.lockPollInterval.nanos) (hsleeps : a.intervals ≤ sleeps) :
    start + a.config.lockWait.nanos ≤ p.1.now :=
  Nat.le_trans (Nat.add_le_add_left ((intervals_le_iff hpoll).mp hsleeps) start) h.slept

/-! ### Going on -/

/-- A request that is no attempt leaves the findings as they are. -/
theorem Polling.asked {later : Nat} (h : a.Polling key token start attempts sleeps p)
    (hx : x.finding? key = none)
    (hslept : start + later * a.config.lockPollInterval.nanos ≤ s.now)
    (hlater : later ≤ a.intervals) :
    a.Polling key token start attempts later (s, x :: p.2) where
  seeks y hy hfinding := by
    rcases List.mem_cons.mp hy with rfl | hy
    · rw [hx] at hfinding
      cases hfinding
    · exact h.seeks y hy hfinding
  findings_eq := by rw [Trail.findings, List.filterMap_cons_none hx]; exact h.findings_eq
  slept := hslept
  sleeps_le := hlater

/-- An attempt adds what it finds. -/
theorem findings_attempted {f : Finding} {trail : Trail} (hx : x.finding? key = some f) :
    Trail.findings key (x :: trail) = f :: trail.findings key := by
  rw [Trail.findings, List.filterMap_cons_some hx, Trail.findings]

theorem seeks_attempted {ttl : Duration} {trail : Trail} (h : trail.Seeks key token ttl)
    (hx : x.request = .coord (.tryLock key token ttl)) :
    Trail.Seeks key token ttl (x :: trail) := by
  intro y hy hfinding
  rcases List.mem_cons.mp hy with rfl | hy
  · exact hx
  · exact h y hy hfinding

theorem Polling.held (h : a.Polling key token start attempts sleeps p)
    (hx : x.request = .coord (.tryLock key token a.config.lockTtl))
    (hfinding : x.finding? key = some .held) (hnow : p.1.now ≤ s.now) :
    a.Polling key token start (attempts + 1) sleeps (s, x :: p.2) where
  seeks := seeks_attempted h.seeks hx
  findings_eq := by rw [findings_attempted hfinding, h.findings_eq]; rfl
  slept := Nat.le_trans h.slept hnow
  sleeps_le := h.sleeps_le

/-! ### The end of a wait -/

/-- The first attempt that does not find the lock held ends the wait. -/
theorem Polling.ends {f : Finding} {out : Checked (Except CoordError Bool)}
    (h : a.Polling key token start sleeps sleeps p)
    (hwait : start + a.config.lockWait.nanos < Moment.bound)
    (hx : x.request = .coord (.tryLock key token a.config.lockTtl))
    (hfinding : x.finding? key = some f) (hf : f ≠ .held)
    (hanswers : f.Answers key token a.config.lockTtl s out) :
    a.Waited key token start out (s, x :: p.2) := by
  -- All attempts before this one have found the lock held.
  have hfindings : Trail.findings key (x :: p.2) = f :: List.replicate sleeps .held := by
    rw [findings_attempted hfinding, h.findings_eq]
  have hmem : ∀ g, g ≠ .held → (g ∈ Trail.findings key (x :: p.2) ↔ g = f) := by
    intro g hg
    rw [hfindings, List.mem_cons, List.mem_replicate]
    exact or_iff_left fun hheld => hg hheld.2
  constructor
  case seeks => exact seeks_attempted h.seeks hx
  case attempts_le =>
    rw [hfindings, List.length_cons, List.length_replicate]
    exact Nat.add_le_add_right h.sleeps_le 1
  case last =>
    rw [hfindings]
    exact fun g hg => (List.mem_replicate.mp hg).2
  case taken_iff => rw [hanswers.taken_iff, hmem .free nofun, eq_comm]
  case holds => exact hanswers.holds
  case refused => exact fun hrefused => absurd (hanswers.refused_iff.mp hrefused) hf
  case failed_iff => exact fun e => by rw [hanswers.failed_iff, hmem (.failed e) nofun, eq_comm]
  case overflow => exact fun o ho => (hanswers.overflow ho).imp_right .inr
  case beyond => exact fun hbeyond => absurd hwait (Nat.not_lt.mpr hbeyond)

/-- A wait whose time is up ends without the lock. -/
theorem Polling.gives_up (h : a.Polling key token start (sleeps + 1) sleeps p)
    (hwait : start + a.config.lockWait.nanos < Moment.bound)
    (hover : start + a.config.lockWait.nanos ≤ p.1.now) :
    a.Waited key token start (.ok (.ok false)) p := by
  have hheld : ∀ f ∈ Trail.findings key p.2, f = .held := by
    rw [h.findings_eq]
    exact fun f hf => (List.mem_replicate.mp hf).2
  constructor
  case seeks => exact h.seeks
  case attempts_le =>
    rw [h.findings_eq, List.length_replicate]
    exact Nat.add_le_add_right h.sleeps_le 1
  case last => exact fun f hf => hheld f (List.mem_of_mem_tail hf)
  case taken_iff => exact ⟨nofun, fun ⟨hfree, _⟩ => nomatch hheld _ hfree⟩
  case holds => nofun
  case refused => exact fun _ => ⟨hheld, hover⟩
  case failed_iff => exact fun e => ⟨nofun, fun hfailed => nomatch hheld _ hfailed⟩
  case overflow => nofun
  case beyond => exact fun hbeyond => absurd hwait (Nat.not_lt.mpr hbeyond)

/-! ### Requests of a wait -/

/-- The terms of the requests of a wait, which may end with an overflow as well. -/
abbrev waiting (a : Admission) (key token : String) (start : Moment) (W : Surroundings) :
    Terms (Shared × Trail) :=
  Program.answering W.answer fun o => a.Waited key token start (.error o)

/-- An attempt ends the wait, or it goes on. -/
theorem Polling.attempt {Q : Bool → Shared × Trail → Prop}
    (h : a.Polling key token start sleeps sleeps p)
    (hwait : start + a.config.lockWait.nanos < Moment.bound)
    (htaken : ∀ p', a.Waited key token start (.ok (.ok true)) p' → Q true p')
    (hheld : ∀ p', a.Polling key token start (sleeps + 1) sleeps p' → Q false p') :
    Coord.ensures (a.waiting key token start W) Q
      (fun e => a.Waited key token start (.ok (.error e)))
      (Coord.call (.tryLock key token a.config.lockTtl)) p := by
  rw [Coord.ensures_call (.tryLock key token a.config.lockTtl)]
  unfold waiting Program.answering Surroundings.answer
  rcases hanswer : (W.found p).answerUnless (fun _ => W.fault p.2)
    (.coord (.tryLock key token a.config.lockTtl)) with ⟨reply, left⟩
  obtain ⟨f, hfinding, hanswers⟩ := Shared.answerUnless_tryLock hanswer
  have hnow : p.1.now ≤ left.now := calc
    p.1.now ≤ (W.found p).now := Nat.le_add_right _ _
    _ ≤ _ := Shared.now_le_answerUnless _ _ _
    _ = left.now := by rw [hanswer]
  -- The wait goes on only if the lock was held: what else is found ends the program.
  by_cases hf : f = .held
  · subst hf
    cases hanswers
    exact hheld _ (h.held rfl hfinding hnow)
  · have hends := h.ends hwait rfl hfinding hf hanswers
    rcases reply with o | e | b
    · exact hends
    · exact hends
    · cases b with
      | true => exact htaken _ hends
      | false => exact absurd (hanswers.refused_iff.mp rfl) hf

/-- To read the clock changes nothing. -/
theorem Polling.clock {Q : Moment → Shared × Trail → Prop}
    (h : a.Polling key token start attempts sleeps p)
    (hQ : ∀ p', a.Polling key token start attempts sleeps p' → Q p'.1.now p') :
    (Program.clock).ensures (a.waiting key token start W) Q p := by
  refine hQ _ (h.asked (x := ⟨_, _, _, _⟩) rfl ?_ h.sleeps_le)
  exact Nat.le_trans h.slept (Nat.le_add_right _ _)

/-- A sleep before the time is up is one of those that fit into the wait. -/
theorem Polling.sleep {Q : Unit → Shared × Trail → Prop}
    (h : a.Polling key token start attempts sleeps p)
    (hpoll : 0 < a.config.lockPollInterval.nanos)
    (hearly : p.1.now < start + a.config.lockWait.nanos)
    (hQ : ∀ p', a.Polling key token start attempts (sleeps + 1) p' → Q () p') :
    (Program.sleep a.config.lockPollInterval).ensures (a.waiting key token start W) Q p := by
  refine hQ _ (h.asked (x := ⟨_, _, _, _⟩) rfl ?_ ?_)
  · calc
      start + (sleeps + 1) * a.config.lockPollInterval.nanos
      _ = start + sleeps * a.config.lockPollInterval.nanos + a.config.lockPollInterval.nanos := by
        rw [Nat.succ_mul, Nat.add_assoc]
      _ ≤ p.1.now + a.config.lockPollInterval.nanos := Nat.add_le_add_right h.slept _
      _ ≤ (W.found p).now + a.config.lockPollInterval.nanos :=
        Nat.add_le_add_right (Nat.le_add_right _ _) _
  · by_contra hlast
    exact absurd hearly (Nat.not_lt.mpr (h.over hpoll (Nat.le_of_not_lt hlast)))

/-- A wait that may go on for more rounds than there are sleeps that fit into the rest of its
    time ends before. -/
theorem Polling.run {rounds : Nat} (hpoll : 0 < a.config.lockPollInterval.nanos)
    (h : a.Polling key token start sleeps sleeps p)
    (hwait : start + a.config.lockWait.nanos < Moment.bound)
    (hrounds : a.intervals < sleeps + rounds) :
    Coord.ensures (a.waiting key token start W)
      (fun b => a.Waited key token start (.ok (.ok b)))
      (fun e => a.Waited key token start (.ok (.error e)))
      (a.pollLock key token (start + a.config.lockWait.nanos) rounds) p := by
  induction rounds generalizing sleeps p with
  | zero =>
    -- The rounds do not come to their end: no more sleeps than that have begun early.
    exact absurd hrounds (Nat.not_lt.mpr h.sleeps_le)
  | succ rounds ih =>
    rw [pollLock, Coord.ensures_bind]
    refine h.attempt hwait (fun p' hp' => hp') fun p' hp' => ?_
    simp only [Bool.false_eq_true, if_false, Coord.ensures_bind, Coord.ensures_lift]
    refine hp'.clock fun p' hp' => ?_
    by_cases hover : start + a.config.lockWait.nanos ≤ p'.1.now
    · rw [if_pos hover]
      exact hp'.gives_up hwait hover
    · rw [if_neg hover, Coord.ensures_bind, Coord.ensures_lift]
      refine hp'.sleep hpoll (Nat.lt_of_not_le hover) fun p' hp' => ?_
      exact ih hp' (by omega)

theorem unattempted (token : String) {ttl : Duration} {trail : Trail}
    (h : ∀ x ∈ trail, x.finding? key = none) :
    trail.Seeks key token ttl ∧ trail.findings key = [] := by
  refine ⟨fun x hx hfinding => ?_, List.filterMap_eq_nil_iff.mpr h⟩
  rw [h x hx] at hfinding
  cases hfinding

/-- A wait whose time reaches beyond the clock ends before the first attempt. -/
theorem waited_beyond (hnone : ∀ x ∈ p.2, x.finding? key = none)
    (hbeyond : Moment.bound ≤ start + a.config.lockWait.nanos) :
    a.Waited key token start (.error .deadline) p := by
  obtain ⟨hseeks, hfindings⟩ := unattempted token hnone
  constructor
  case seeks => exact hseeks
  case attempts_le =>
    rw [hfindings]
    exact Nat.zero_le _
  case beyond => exact fun _ => ⟨rfl, hfindings⟩
  case overflow =>
    intro o ho
    cases ho
    exact ⟨rfl, .inl hbeyond⟩
  all_goals simp [hfindings]

/-- The wait for a lock ends as it should, if its rounds suffice for the time that the clock leaves
    it. -/
theorem waited_acquireLock {rounds : Nat} (key token : String) (W : Surroundings) (s : Shared)
    (hpoll : 0 < a.config.lockPollInterval.nanos)
    (hrounds : s.now + W.delay [] + a.config.lockWait.nanos < Moment.bound →
      a.intervals < rounds) :
    (a.acquireLock key token rounds).run.ensures
      (a.waiting key token (s.now + W.delay []) W)
      (fun reply => a.Waited key token (s.now + W.delay []) (.ok reply)) (s, []) := by
  rw [Program.ensures_run, acquireLock, Coord.ensures_bind, Coord.ensures_lift,
    Program.ensures_clock]
  show Coord.ensures (a.waiting key token (s.now + W.delay []) W) _ _ _
    (W.found (s, []), [⟨W.found (s, []), .clock, .ok (s.now + W.delay []), W.found (s, [])⟩])
  rw [Coord.ensures_bind, Coord.ensures_lift]
  -- The start of the wait is the first reading of the clock, which is no attempt.
  have hclock : ∀ x ∈ [(⟨W.found (s, []), .clock, .ok (s.now + W.delay []), W.found (s, [])⟩ :
      Encounter)], x.finding? key = none := by
    intro x hx
    rw [List.mem_singleton.mp hx]
    rfl
  by_cases hwait : s.now + W.delay [] + a.config.lockWait.nanos < Moment.bound
  · have hafter : (W.found (s, [])).now.after a.config.lockWait =
        .ok (s.now + W.delay [] + a.config.lockWait.nanos) := if_pos hwait
    rw [hafter]
    obtain ⟨hseeks, hfindings⟩ := unattempted token hclock
    have hstart : a.Polling key token (s.now + W.delay []) 0 0
        (W.found (s, []), [⟨W.found (s, []), .clock, .ok (s.now + W.delay []),
          W.found (s, [])⟩]) :=
      { seeks := hseeks
        findings_eq := hfindings
        slept := by rw [Nat.zero_mul]; exact Nat.le_refl _
        sleeps_le := Nat.zero_le _ }
    exact hstart.run hpoll hwait (by rw [Nat.zero_add]; exact hrounds hwait)
  · have hafter : (W.found (s, [])).now.after a.config.lockWait = .error .deadline :=
      if_neg hwait
    rw [hafter]
    refine waited_beyond ?_ (Nat.le_of_not_lt hwait)
    intro x hx
    rcases List.mem_cons.mp hx with rfl | hx
    · rfl
    · exact hclock x hx

/-- Wait for a lock, with an interval between the attempts that is not nothing, whatever goes
    on around it. The wait ends, with at most one attempt more than the interval fits into it,
    rounded up. It ends with the lock exactly if an attempt found it free, and the lock is then
    held under the token; without the lock only if every attempt found it held and the time is
    up; and with an error exactly if an attempt failed. Only the last attempt can have found the
    lock free, or have failed.

    This holds of every wait that may go on for more rounds than the interval fits into it. -/
theorem lock_wait_decided (a : Admission) (key token : String)
    (hpoll : 0 < a.config.lockPollInterval.nanos) (W : Surroundings) (s : Shared) :
    (∃ out p, (a.acquireLock key token).run.run W.answer (s, []) = (out, p) ∧
      a.Waited key token (s.now + W.delay []) out p) ∧
    ∀ rounds, a.intervals < rounds →
      ∃ out p, (a.acquireLock key token rounds).run.run W.answer (s, []) = (out, p) ∧
        a.Waited key token (s.now + W.delay []) out p := by
  constructor
  · have hwaited := waited_acquireLock key token W s hpoll
      (intervals_lt_bound hpoll)
    exact ⟨_, _, rfl, Program.run_of_ensures hwaited⟩
  · intro rounds hrounds
    have hwaited := waited_acquireLock key token W s hpoll
      fun _ => hrounds
    exact ⟨_, _, rfl, Program.run_of_ensures hwaited⟩

/-- Surroundings in which somebody else holds a lock until a time. -/
def heldUntil (key : String) (stop : Moment) : Surroundings where
  store _ := CoordStore.put {} key ⟨.text "other", some stop⟩
  delay _ := 0
  fault _ := none

/-- Admission that waits for a lock for 200 milliseconds, and 50 between two attempts. -/
def waitingBriefly : Admission :=
  ⟨{ lockWait := .milliseconds 200, lockPollInterval := .milliseconds 50 },
    .ofDefault 20 (.seconds 600)⟩

/-- It waits for a lock that is given back after 120 milliseconds. -/
def briefWait : Checked (Except CoordError Bool) × Shared × Trail :=
  (waitingBriefly.acquireLock "l" "mine").run.run (heldUntil "l" 120000000).answer ({}, [])

/-- The fourth attempt takes the lock. -/
theorem lock_wait_decided_fourth_attempt :
    0 < waitingBriefly.config.lockPollInterval.nanos ∧
      waitingBriefly.Waited "l" "mine" 0 briefWait.1 briefWait.2 ∧
      briefWait.1 = .ok (.ok true) ∧
      Trail.findings "l" briefWait.2.2 = [.free, .held, .held, .held] ∧
      briefWait.2.1.now = 150000000 := by
  obtain ⟨⟨out, p, hrun, hwaited⟩, -⟩ := lock_wait_decided waitingBriefly "l" "mine" (by decide)
    (heldUntil "l" 120000000) {}
  have hbrief : briefWait = (out, p) := hrun
  refine ⟨by decide, ?_, by decide +kernel⟩
  rw [hbrief]
  exact hwaited

end Admission

end ExecutionControl
