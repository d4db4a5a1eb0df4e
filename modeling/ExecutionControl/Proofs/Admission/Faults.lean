import ExecutionControl.Proofs.Admission.Course
import ExecutionControl.Proofs.Admission.Operations

/-! # Admission when calls fail

    An admission that runs alone against any store, where every call to the store and every
    read of a durable limit may fail. `Settles` says what it may answer and what it leaves
    behind; `admission_faults` proves that it does, whichever calls fail.
-/

namespace ExecutionControl

/-! ### What a log shows of the lock -/

/-- Whether a request tried to take a lock. -/
def Exchange.triesLock : Exchange → Bool
  | ⟨_, .coord (.tryLock ..), _⟩ => true
  | _ => false

/-- Whether a request was answered that a lock is held. -/
def Exchange.findsLocked : Exchange → Bool
  | ⟨_, .coord (.tryLock ..), .ok false⟩ => true
  | _ => false

namespace Admission

/-- What one admission answers and leaves behind, from its start at `s` to its end at `p`. -/
structure Settles (a : Admission) (c : ExecutionContext) (now : Timestamp) (s : Shared)
    (result : Except AdmissionError Decision) (p : Point) : Prop where
  /-- It is an error only if the lock was held at every try; then nothing has changed. -/
  refused : ∀ e, result = .error e →
    e = .lockNotAcquired c.orgId a.config.lockWait ∧
      (∀ x ∈ p.log, x.triesLock → x.findsLocked) ∧ p.shared.coord = s.coord
  /-- It is admitted without a check exactly if a vital request failed. -/
  unchecked : result = .ok (.admitted true) ↔ ∃ x ∈ p.log, x.failsVitally
  /-- A rejection takes no slot. -/
  rejected : ∀ r, result = .ok (.rejected r) → ∀ (key member : String) (score : Float),
    (p.shared.members key)[member]? = some score → (s.members key)[member]? = some score
  /-- An admission after the check holds both slots, scored with its time. -/
  admitted : result = .ok (.admitted false) → ∀ key ∈ slotKeys c,
    s.Keeps key c.executionId now.score p.shared
  /-- An admission without a check takes no slot of the whole system. -/
  noGlobalSlot : result = .ok (.admitted true) → ∀ (member : String) (score : Float),
    (p.shared.members Key.globalSlots)[member]? = some score →
      (s.members Key.globalSlots)[member]? = some score
  /-- A set loses no slot that counts, unless its deadline comes. -/
  retains : ∀ (key member : String) (score : Float), s.coord.Lasts s.now p.shared.now key →
    (s.members key)[member]? = some score → score > a.cutoff now →
      (p.shared.members key).contains member
  /-- It has drawn one token. If every token that held the lock at the start had been drawn
      before, the lock is not held under this one, unless it could not be given back. -/
  freed : ∃ token, p.log.tokens = [token] ∧
    ((∀ id, s.coord.isHeldBy s.now (Key.orgLock c.orgId) id = true → id ∈ s.drawn) →
      (∀ later, p.shared.now ≤ later →
        p.shared.coord.isHeldBy later (Key.orgLock c.orgId) token = false) ∨
      ∃ x ∈ p.log, x.failsUnlock)

variable {a : Admission} {c : ExecutionContext} {now : Timestamp} {token key : String}
  {s s' : Shared} {p : Point}

/-! ### Waiting for the lock -/

/-- An admission that waits for the lock has found it held, and has changed nothing. -/
structure Waiting (a : Admission) (now : Timestamp) (token : String) (s : Shared) (p : Point) :
    Prop extends a.Course now token s false (· > a.cutoff now) noMembers p where
  coord : p.shared.coord = s.coord
  locked : ∀ x ∈ p.log, x.triesLock → x.findsLocked

theorem Waiting.asked {r : Request} {reply : r.Reply} (h : a.Waiting now token s p)
    (hr : r ≠ .token) (hvital : (Exchange.failsVitally ⟨s'.now, r, reply⟩ || false) = false)
    (hlock : Exchange.triesLock ⟨s'.now, r, reply⟩ → Exchange.findsLocked ⟨s'.now, r, reply⟩)
    (hnow : p.shared.now ≤ s'.now) (hcoord : s'.coord = p.shared.coord) :
    a.Waiting now token s (p.asked s' r reply) where
  toCourse := h.idle hr hvital hnow hcoord
  coord := hcoord.trans h.coord
  locked x hx := by
    rcases List.mem_cons.mp hx with rfl | hx
    · exact hlock
    · exact h.locked x hx

/-- One try for the lock takes it, finds it held or fails. -/
theorem serving_tryLock {o : String} {Q : Except CoordError Bool → Point → Prop}
    (h : a.Waiting now token s p)
    (htaken : ∀ p', a.Course now token s false (· > a.cutoff now) noMembers p' → Q (.ok true) p')
    (hheld : ∀ p', p.shared.now ≤ p'.shared.now → a.Waiting now token s p' → Q (.ok false) p')
    (hfailed : ∀ e p', a.Course now token s true (· > a.cutoff now) noMembers p' →
      p'.shared.coord = s.coord → Q (.error e) p') :
    serving .any a.BeyondClock (.coord (.tryLock (Key.orgLock o) token a.config.lockTtl)) Q p := by
  refine serving_coord (fun reply s₁ hnow hp => ?_) (fun e s₁ hnow hcoord _ => ?_)
    fun o' s₁ _ _ hp => ?_
  -- A lock that is taken may change the store; one that is held, or a call that fails, does not.
  · match reply with
    | .ok true =>
      have hlock := Key.not_isSlots_orgLock o
      exact htaken _ (h.toCourse.asked (by simp) rfl (fun _ _ _ h => h)
        (.of_tryLock hlock hnow hp))
    | .ok false =>
      rcases CoordStore.perform_tryLock hp with ⟨_, hcoord⟩ | ⟨htrue, _⟩
      · exact hheld _ hnow (h.asked (by simp) rfl (fun _ => rfl) hnow hcoord)
      · cases htrue
    | .error e =>
      rcases CoordStore.perform_tryLock hp with ⟨_, hcoord⟩ | ⟨htrue, _⟩
      · exact hfailed e _ (h.toCourse.idle (by simp) rfl hnow hcoord) (hcoord.trans h.coord)
      · cases htrue
  · exact hfailed e _ (h.toCourse.idle (by simp) rfl hnow hcoord) (hcoord.trans h.coord)
  · obtain ⟨rfl, hbound⟩ := CoordStore.perform_tryLock_error hp
    exact .lockTtl hbound

/-- A wait with time between its attempts comes to its deadline before it runs out of rounds. -/
def InTime (a : Admission) (deadline : Moment) (rounds : Nat) (time : Moment) : Prop :=
  0 < a.config.lockPollInterval.nanos → 0 < rounds ∧ deadline < time + rounds

/-- A sleep brings the deadline nearer. -/
theorem InTime.slept {deadline time early later : Moment} {rounds : Nat}
    (h : a.InTime deadline (rounds + 1) time) (hnow : time ≤ early) (hearly : early < deadline)
    (hslept : early + a.config.lockPollInterval.nanos ≤ later) :
    a.InTime deadline rounds later := by
  intro hpoll
  have hrounds : deadline < early + (rounds + 1) :=
    Nat.lt_of_lt_of_le (h hpoll).2 (Nat.add_le_add_right hnow _)
  have hlater : early + 1 ≤ later := Nat.le_trans (Nat.add_le_add_left hpoll early) hslept
  constructor
  · -- There is time left, and so there are rounds left.
    by_contra hnone
    rw [Nat.eq_zero_of_not_pos hnone] at hrounds
    exact absurd hrounds (Nat.not_lt.mpr hearly)
  · calc
      deadline < early + 1 + rounds := by rwa [Nat.add_assoc, Nat.add_comm 1]
      _ ≤ later + rounds := Nat.add_le_add_right hlater rounds

/-- The wait for a lock ends with what one of its attempts came to, or with the lock held at
    every one of them. -/
theorem ensures_pollLock {o : String} {deadline : Moment} {rounds : Nat}
    {Q : Bool → Point → Prop} {E : CoordError → Point → Prop} (h : a.Waiting now token s p)
    (hrounds : a.InTime deadline rounds p.shared.now)
    (htaken : ∀ p', a.Course now token s false (· > a.cutoff now) noMembers p' → Q true p')
    (hheld : ∀ p', a.Waiting now token s p' → Q false p')
    (hfailed : ∀ e p', a.Course now token s true (· > a.cutoff now) noMembers p' →
      p'.shared.coord = s.coord → E e p') :
    Coord.ensures (serving .any a.BeyondClock) Q E
      (a.pollLock (Key.orgLock o) token deadline rounds) p := by
  induction rounds generalizing p with
  | zero =>
    rw [pollLock, Coord.ensures_lift]
    apply serving_stop
    intro s' _ _
    apply BeyondClock.endless
    by_contra hpoll
    exact absurd (hrounds (Nat.pos_of_ne_zero hpoll)).1 (Nat.lt_irrefl 0)
  | succ rounds ih =>
    simp only [pollLock, Coord.ensures_bind]
    refine serving_tryLock h htaken (fun p₁ hnow₁ h₁ => ?_) hfailed
    apply serving_clock
    intro s₂ hnow₂ hcoord₂
    have h₂ : a.Waiting now token s (p₁.asked s₂ .clock s₂.now) :=
      h₁.asked (by simp) rfl (fun h => by cases h) hnow₂ hcoord₂
    -- Whether the wait is over or not, the lock was held at every try so far.
    show Coord.ensures _ Q E (if s₂.now ≥ deadline then _ else _) _
    by_cases hover : s₂.now ≥ deadline
    · rw [if_pos hover]
      exact hheld _ h₂
    · rw [if_neg hover]
      simp only [Coord.ensures_bind, Coord.ensures_lift, Program.ensures_sleep]
      apply serving_sleep
      intro s₃ hnow₃ hcoord₃
      have hnow : s₂.now ≤ s₃.now := Nat.le_trans (Nat.le_add_right _ _) hnow₃
      refine ih (h₂.asked (by simp) rfl (fun h => by cases h) hnow hcoord₃) ?_
      exact hrounds.slept (Nat.le_trans hnow₁ hnow₂) (Nat.lt_of_not_le hover) hnow₃

/-! ### Giving the lock back -/

/-- A lock is free of a token from now on, unless it could not be given back. -/
def Freed (key token : String) (p : Point) : Prop :=
  (∀ later, p.shared.now ≤ later → p.shared.coord.isHeldBy later key token = false) ∨
    ∃ x ∈ p.log, x.failsUnlock

theorem Freed.asked {r : Request} {reply : r.Reply} (h : Freed key token p)
    (hnow : p.shared.now ≤ s'.now) (hcoord : s'.coord = p.shared.coord) :
    Freed key token (p.asked s' r reply) := by
  rcases h with hfree | ⟨x, hx, hfails⟩
  · apply Or.inl
    intro later hlater
    show s'.coord.isHeldBy later key token = false
    rw [hcoord]
    exact hfree later (Nat.le_trans hnow hlater)
  · exact Or.inr ⟨x, List.mem_cons_of_mem _ hx, hfails⟩

theorem ensures_unlock {o : String} {decision : Decision}
    {Q : Except CoordError Bool → Point → Prop} (h : a.Outcome c now token s decision p)
    (hQ : ∀ reply p', a.Outcome c now token s decision p' → Freed (Key.orgLock o) token p' →
      Q reply p') :
    serving .any a.BeyondClock (.coord (.unlock (Key.orgLock o) token)) Q p := by
  have hlock := Key.not_isSlots_orgLock o
  refine serving_coord (fun reply s₁ hnow hp => ?_) (fun e s₁ hnow hcoord _ => ?_)
    fun o' s₁ _ _ hp => by cases hp
  · refine hQ reply _ (h.asked (by simp) rfl fun P => .of_unlock hlock hnow hp) ?_
    cases reply with
    -- An error that the store answers with counts as a failure too.
    | error e => exact Or.inr ⟨_, List.mem_cons_self, rfl⟩
    | ok held => exact Or.inl fun later hlater => CoordStore.isHeldBy_of_unlock hp hlater
  · refine hQ _ _ (h.asked (by simp) rfl fun P => .of_coord_eq hnow hcoord) ?_
    exact Or.inr ⟨_, List.mem_cons_self, rfl⟩

/-- Once the check is over the lock is given back, whatever came of it. -/
theorem ensures_decideLocked {Q : Decision → Point → Prop}
    (h : a.Course now token s false (· > a.cutoff now) noMembers p)
    (hQ : ∀ d p', a.Outcome c now token s d p' → Freed (Key.orgLock c.orgId) token p' → Q d p') :
    (a.decideLocked c now token).ensures (serving .any a.BeyondClock) Q p := by
  simp only [decideLocked, Program.ensures_bind, Program.ensures_run]
  refine ensures_checkAndOccupy h (fun d p₁ h₁ => ?_) fun e p₁ h₁ => ?_
  · simp only [Program.ensures_coord]
    apply ensures_unlock h₁
    intro reply p₂ h₂ hfreed
    exact hQ d p₂ h₂ hfreed
  · simp only [Program.ensures_coord]
    apply ensures_unlock h₁
    intro reply p₂ h₂ hfreed
    simp only [failOpen, Program.ensures_bind, Program.ensures_report]
    apply serving_other (by simp)
    intro _ s₃ hnow hcoord
    exact hQ _ _ (h₂.asked (by simp) rfl fun P => .of_coord_eq hnow hcoord)
      (hfreed.asked hnow hcoord)

/-! ### The whole admission -/

theorem Course.retains {failed : Bool} {Left : Float → Prop}
    {New : String → String → Float → Prop} (h : a.Course now token s failed Left New p)
    (member : String) (score : Float) (hlasts : s.coord.Lasts s.now p.shared.now key)
    (hmem : (s.members key)[member]? = some score) (hscore : score > a.cutoff now) :
    (p.shared.members key).contains member := by
  obtain ⟨_, score', hmem', _⟩ := h.evolves.retains key member score hlasts hmem hscore
  rw [Std.ExtTreeMap.contains_eq_isSome_getElem?, hmem']
  rfl

theorem Course.failed_iff {failed : Bool} {Left : Float → Prop}
    {New : String → String → Float → Prop} (h : a.Course now token s failed Left New p) :
    failed = true ↔ ∃ x ∈ p.log, x.failsVitally := by
  rw [← h.failed_eq, List.any_eq_true]

/-- A lock is not held under a token that was drawn since. -/
theorem Freed.of_coord_eq (hfresh : token ∉ s.drawn) (hnow : s.now ≤ p.shared.now)
    (hcoord : p.shared.coord = s.coord)
    (hdrawn : ∀ id, s.coord.isHeldBy s.now key id = true → id ∈ s.drawn) :
    Freed key token p := by
  apply Or.inl
  intro later hlater
  rw [hcoord, Bool.eq_false_iff]
  intro hheld
  exact hfresh (hdrawn token (CoordStore.isHeldBy_of_le (Nat.le_trans hnow hlater) hheld))

/-- What was decided settles the admission. -/
theorem Outcome.settles {decision : Decision} (h : a.Outcome c now token s decision p)
    (hfreed : (∀ id, s.coord.isHeldBy s.now (Key.orgLock c.orgId) id = true → id ∈ s.drawn) →
      Freed (Key.orgLock c.orgId) token p) : a.Settles c now s (.ok decision) p := by
  -- Whatever was decided, there is a course to it, which tells whether a vital request failed.
  obtain ⟨failed, Left, New, hcourse, hfailed⟩ : ∃ failed Left New,
      a.Course now token s failed Left New p ∧ (decision = .admitted true ↔ failed = true) := by
    match decision with
    | .rejected _ => exact ⟨_, _, _, h, by simp⟩
    | .admitted true => exact ⟨_, _, _, h, by simp⟩
    | .admitted false => exact ⟨_, _, _, h.1, by simp⟩
  constructor
  case refused =>
    intro e he
    cases he
  case unchecked =>
    rw [← hcourse.failed_iff, ← hfailed, Except.ok.injEq]
  case rejected =>
    intro r hr key member score hmem
    cases hr
    rcases Evolves.grows (Course.evolves h) key member score hmem with hbefore | hnew
    · exact hbefore
    · exact hnew.elim
  case admitted =>
    intro hd
    cases hd
    exact h.2
  case noGlobalSlot =>
    intro hd member score hmem
    cases hd
    -- The one slot that may have been taken is that of the organisation.
    rcases Evolves.grows (Course.evolves h) _ member score hmem with hbefore | ⟨hkey, _⟩
    · exact hbefore
    · exact absurd (List.mem_singleton.mp hkey).symm (Key.orgSlots_ne_globalSlots c.orgId)
  case retains => exact fun key member score => hcourse.retains member score
  case freed => exact ⟨token, hcourse.tokens, hfreed⟩

/-- An admission that gives up waiting is settled. -/
theorem Waiting.settles (h : a.Waiting now token s p) (hfresh : token ∉ s.drawn) :
    a.Settles c now s (.error (.lockNotAcquired c.orgId a.config.lockWait)) p where
  refused e he := by
    cases he
    exact ⟨rfl, h.locked, h.coord⟩
  unchecked := by
    rw [← h.failed_iff]
    simp
  rejected _ hr := by cases hr
  admitted hd := by cases hd
  noGlobalSlot hd := by cases hd
  retains key member score := h.retains member score
  freed := ⟨token, h.tokens, Freed.of_coord_eq hfresh h.evolves.now_le h.coord⟩

theorem ensures_tryAdmitAt (a : Admission) (c : ExecutionContext) (now : Timestamp)
    (s : Shared) :
    (a.tryAdmitAt c now).ensures (serving .any a.BeyondClock)
      (fun result p => a.Settles c now s result p) ⟨s, []⟩ := by
  simp only [tryAdmitAt, Program.ensures_bind, Program.ensures_token]
  refine ⟨fun token s₁ hs => ?_, fun o s₁ hs => ?_⟩
  case refine_2 => exact absurd hs (Shared.Serves.ne_overflow (by simp))
  -- The token was not drawn before, so that no lock is held under it yet.
  have hfresh : token ∉ s.drawn := hs.token.1
  have hcoord : s₁.coord = s.coord := hs.coord_eq (by simp)
  have hdrawn : a.Waiting now token s (Point.asked ⟨s, []⟩ s₁ .token token) :=
    { evolves := .of_coord_eq hs.now_le hcoord
      failed_eq := rfl
      tokens := rfl
      coord := hcoord
      locked := fun x hx htries => by
        rw [List.mem_singleton.mp hx] at htries
        cases htries }
  simp only [acquireLock, Program.ensures_run, Coord.ensures_bind, Coord.ensures_lift,
    Program.ensures_clock]
  apply serving_clock
  intro s₂ hnow₂ hcoord₂
  refine ensures_lockDeadline (Nat.le_refl s₂.now) fun deadline hbound => ?_
  -- The deadline is a reading of the clock, and there are as many rounds as readings.
  have hrounds : a.InTime deadline Moment.bound s₂.now := fun _ =>
    ⟨Nat.zero_lt_of_lt hbound, Nat.lt_of_lt_of_le hbound (Nat.le_add_left _ _)⟩
  refine ensures_pollLock (hdrawn.asked (by simp) rfl (fun h => by cases h) hnow₂ hcoord₂)
    hrounds (fun p h => ?_) (fun p h => h.settles hfresh) fun e p h hunchanged => ?_
  · simp only [Program.ensures_map]
    exact ensures_decideLocked h fun d p' houtcome hfreed => houtcome.settles fun _ => hfreed
  · -- The lock was not taken, so that there is none to give back.
    simp only [Program.ensures_map, failOpen, Program.ensures_bind, Program.ensures_report]
    apply serving_other (by simp)
    intro _ s₄ hnow₄ hcoord₄
    have houtcome : a.Outcome c now token s (.admitted true) p := h.unchecked
    refine (houtcome.asked (by simp) rfl fun P => .of_coord_eq hnow₄ hcoord₄).settles ?_
    intro hheld
    exact (Freed.of_coord_eq hfresh h.evolves.now_le hunchanged hheld).asked hnow₄ hcoord₄

/-- Whatever the store holds and whichever calls fail, an admission ends with an answer that
    is settled, unless a span reaches beyond the clock. -/
theorem admission_faults (a : Admission) (c : ExecutionContext) (now : Timestamp) (s : Shared)
    (out : Checked (Except AdmissionError Decision)) (p : Point)
    (h : (a.tryAdmitAt c now).Ends .any ⟨s, []⟩ out p) :
    (∀ result, out = .ok result → a.Settles c now s result p) ∧
      ∀ o, out = .error o → a.BeyondClock o p :=
  h.of_ensures (ensures_tryAdmitAt a c now s)

/-- The store fails where a slot of the whole system is asked for. -/
def globalSlotFails : CoordCall → Option CoordError
  | .addMember key .. => if key = Key.globalSlots then some (.unavailable "timeout") else none
  | _ => none

/-- An admission to the empty store that gets no slot of the whole system. -/
def halfOccupied : Checked (Except AdmissionError Decision) × Point :=
  ((Admission.withCeilings 1 1).tryAdmitAt ⟨"o", "w", "e", "c"⟩ default).run
    (Point.answer globalSlotFails) ⟨{}, []⟩

theorem admission_faults_half_occupied :
    ∃ p, ((Admission.withCeilings 1 1).tryAdmitAt ⟨"o", "w", "e", "c"⟩ default).Ends .any ⟨{}, []⟩
        (.ok (.ok (.admitted true))) p ∧
      (p.shared.members (Key.orgSlots "o")).size = 1 ∧
      (Admission.withCeilings 1 1).Settles ⟨"o", "w", "e", "c"⟩ default {}
        (.ok (.admitted true)) p := by
  have hends : Program.Ends .any _ _ halfOccupied.1 halfOccupied.2 :=
    Program.ends_run (fun _ _ _ => trivial)
      ((Admission.withCeilings 1 1).tryAdmitAt ⟨"o", "w", "e", "c"⟩ default) ⟨{}, []⟩
  have hout : halfOccupied.1.toOption.bind Except.toOption = some (.admitted true) := by
    decide +kernel
  have hslot : (halfOccupied.2.shared.members (Key.orgSlots "o")).size = 1 := by decide +kernel
  generalize halfOccupied = r at hends hout hslot
  rcases r with ⟨o | e | d, p⟩
  · cases hout
  · cases hout
  · obtain rfl : d = .admitted true := Option.some.inj hout
    exact ⟨p, hends, hslot, (admission_faults _ _ _ _ _ _ hends).1 _ rfl⟩

end Admission

end ExecutionControl
