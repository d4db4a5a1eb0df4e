import ExecutionControl.Proofs.Coordination.Runs
import ExecutionControl.Proofs.HashChanges

/-! # Who holds a lock, and when

    A lock is held from the call that takes it until its time to live is over or until its
    token gives it back, whichever comes first. `Log.tenures` reads these times off the
    answers of a run, without a look at the store.

    In the store a lock is a text with a deadline. The invariant of a run on a lock is that the
    two agree (`Guards`): the key holds the token of the last tenure until that one stops, and
    nothing once every tenure has stopped. Nobody takes a key that holds something, so that a
    new tenure starts after all others have stopped; and a token that is not the one in the
    store frees nothing (`locks_exclude`).
-/

namespace ExecutionControl

/-! ### Tenures -/

/-- A time for which a token holds a lock, from its start until right before its stop. -/
structure Tenure where
  token : String
  start : Moment
  stop : Moment
  deriving DecidableEq

namespace Tenure

/-- The lock is held at this time. -/
def Running (h : Tenure) (now : Moment) : Prop := h.start ≤ now ∧ now < h.stop

/-- What becomes of a tenure when a token gives the lock back: its own stops, unless it is over
    already. -/
def givenBack (token : String) (now : Moment) (h : Tenure) : Tenure :=
  if h.token = token then { h with stop := min h.stop now } else h

variable {token : String} {now : Moment} {h : Tenure}

@[simp] theorem start_givenBack : (h.givenBack token now).start = h.start := by
  unfold givenBack
  split <;> rfl

theorem stop_givenBack_le : (h.givenBack token now).stop ≤ h.stop := by
  unfold givenBack
  split
  · exact Nat.min_le_left _ _
  · exact Nat.le_refl _

/-- The tenure of the token has stopped then. -/
theorem stop_givenBack_self : (h.givenBack h.token now).stop ≤ now := by
  rw [givenBack, if_pos rfl]
  exact Nat.min_le_right _ _

end Tenure

/-- What an answer makes of the tenures of a lock, the latest first. -/
def Exchange.onTenures (key : String) (past : List Tenure) : Exchange → List Tenure
  | ⟨now, .coord (.tryLock k token ttl), .ok true⟩ =>
    if k = key then ⟨token, now, now + ttl.nanos⟩ :: past else past
  | ⟨now, .coord (.unlock k token), .ok true⟩ =>
    if k = key then past.map (Tenure.givenBack token now) else past
  | _ => past

/-- The tenures of a lock, the latest first. -/
def Log.tenures (key : String) : Log → List Tenure
  | [] => []
  | x :: log => x.onTenures key (Log.tenures key log)

/-! ### Steps -/

/-- A call on a lock. -/
def CoordCall.Locks (key : String) : CoordCall → Prop
  | .tryLock k .. => k = key
  | .unlock k .. => k = key
  | _ => False

/-- A call that has nothing to do with a key, except that it may list it. -/
def CoordCall.Elsewhere (key : String) : CoordCall → Prop
  | .deletePattern pattern => Glob.isMatch pattern key = false
  | .scan _ => True
  | call => call.subject ≠ key

/-- A step of a run on a lock: a call on the lock or one elsewhere, or trouble. -/
def CoordStep.OnLock (key : String) : CoordStep → Prop
  | .call _ c => c.Locks key ∨ c.Elsewhere key
  | .switch .. => True

namespace CoordStore

variable {s s' : CoordStore} {now later : Moment} {key k token : String} {call : CoordCall}

/-- A call elsewhere leaves the entry of a key alone. -/
theorem entries_of_elsewhere {answer : Except CoordError call.Result}
    (h : s.perform now call = .ok (answer, s')) (helsewhere : call.Elsewhere key) :
    s'.entries[key]? = s.entries[key]? := by
  cases call with
  | scan start => rw [perform_scan h]
  | deletePattern pattern =>
    have hmiss : Glob.isMatch pattern key = false := helsewhere
    simp only [perform, deletePattern, whenAvailable, unreachable] at h
    split at h
    · split at h <;> cases h
      · rw [Std.ExtTreeMap.getElem?_filter']
        cases s.entries[key]? <;> simp [hmiss]
      · rfl
    · cases h
      rfl
  | _ => exact perform_entries_of_ne h (Ne.symm helsewhere) fun pattern hcall => by cases hcall

/-- To drop what is over cannot be seen, now or later. -/
theorem live?_settle (hle : now ≤ later) : (s.settle now key).live? later k = s.live? later k := by
  unfold settle
  split
  · rfl
  · rename_i hover
    by_cases hk : k = key
    · subst hk
      rw [live?_of_absent entries_drop_self, live?_eq_none_of_later hle (by simpa using hover)]
    · exact live?_congr (entries_drop_of_ne hk)

theorem perform_tryLock_eq {ttl : Duration} (havailable : s.available = true) :
    s.perform now (.tryLock key token ttl) =
      if (s.live? now key).isSome then .ok (.ok false, s)
      else (now.after ttl).map fun stop => (.ok true, s.put key ⟨.text token, some stop⟩) := by
  simp only [perform, tryLock, havailable, if_true]

theorem perform_unlock_eq (havailable : s.available = true) :
    s.perform now (.unlock key token) =
      .ok (.ok (s.isHeldBy now key token),
        if s.isHeldBy now key token then s.drop key else s.settle now key) := by
  simp only [perform, unlock, whenAvailable, havailable, if_true]
  cases s.isHeldBy now key token <;> rfl

end CoordStore

/-! ### The invariant -/

/-- What is live under the key of a lock is what its last tenure put there, and every tenure
    before that has stopped; if nothing is live, all have. -/
def Tenure.Shows (now : Moment) (tenures : List Tenure) : Option Entry → Prop
  | none => ∀ h ∈ tenures, h.stop ≤ now
  | some e => ∃ h past, tenures = h :: past ∧ e = ⟨.text h.token, some h.stop⟩ ∧
      ∀ h' ∈ past, h'.stop ≤ now

/-- The store and the tenures of a lock agree, and the tenures do not overlap. -/
structure CoordRun.Guards (key : String) (σ : CoordRun) (now : Moment) : Prop where
  apart : (σ.log.tenures key).Pairwise fun later earlier => earlier.stop ≤ later.start
  begun : ∀ h ∈ σ.log.tenures key, h.start ≤ now
  shows : Tenure.Shows now (σ.log.tenures key) (σ.store.live? now key)

namespace CoordRun

variable {σ : CoordRun} {key token : String} {now later : Moment} {c : CoordCall}

/-- As time passes a tenure may stop, and its entry goes. -/
theorem Guards.at_later (hg : σ.Guards key now) (hle : now ≤ later) : σ.Guards key later := by
  refine ⟨hg.apart, fun h hmem => Nat.le_trans (hg.begun h hmem) hle, ?_⟩
  have hshows := hg.shows
  cases hnow : σ.store.live? now key with
  | none =>
    rw [hnow] at hshows
    rw [CoordStore.live?_eq_none_of_later hle hnow]
    exact fun h hmem => Nat.le_trans (hshows h hmem) hle
  | some e =>
    rw [hnow] at hshows
    obtain ⟨h, past, hhs, rfl, hpast⟩ := hshows
    have hpast' : ∀ h' ∈ past, h'.stop ≤ later := fun h' hmem => Nat.le_trans (hpast h' hmem) hle
    rw [CoordStore.live?_of_entry (CoordStore.live?_eq_some.mp hnow).1, hhs]
    by_cases hlive : later < h.stop
    · rw [if_pos (by simpa [Entry.isLive] using hlive)]
      exact ⟨h, past, rfl, rfl, hpast'⟩
    · rw [if_neg (by simpa [Entry.isLive] using hlive)]
      intro h' hmem
      rcases List.mem_cons.mp hmem with rfl | hmem
      · exact Nat.le_of_not_lt hlive
      · exact hpast' h' hmem

/-- What changes neither the tenures nor what is live keeps the invariant. -/
theorem Guards.congr {σ' : CoordRun} (hg : σ.Guards key now)
    (hlog : σ'.log.tenures key = σ.log.tenures key)
    (hlive : σ'.store.live? now key = σ.store.live? now key) : σ'.Guards key now := by
  refine ⟨?_, ?_, ?_⟩
  · rw [hlog]
    exact hg.apart
  · rw [hlog]
    exact hg.begun
  · rw [hlog, hlive]
    exact hg.shows

/-- A token holds a lock exactly if it lies under its key. -/
theorem Guards.heldBy_iff (hg : σ.Guards key now) :
    (∃ h ∈ σ.log.tenures key, h.token = token ∧ h.Running now) ↔
      σ.store.isHeldBy now key token = true := by
  rw [CoordStore.isHeldBy_iff, CoordStore.datum?]
  have hshows := hg.shows
  cases hnow : σ.store.live? now key with
  | none =>
    rw [hnow] at hshows
    constructor
    · rintro ⟨h, hmem, -, -, hstop⟩
      exact absurd hstop (Nat.not_lt_of_le (hshows h hmem))
    · intro hheld
      cases hheld
  | some e =>
    rw [hnow] at hshows
    obtain ⟨h, past, hhs, rfl, hpast⟩ := hshows
    have hlive := (CoordStore.live?_eq_some.mp hnow).2
    have hmem : h ∈ σ.log.tenures key := by rw [hhs]; exact List.mem_cons_self
    simp only [Option.map_some, Option.some.injEq, Datum.text.injEq]
    constructor
    · rintro ⟨h', hmem', rfl, -, hstop⟩
      -- Only the last tenure runs.
      rw [hhs] at hmem'
      rcases List.mem_cons.mp hmem' with rfl | hmem'
      · rfl
      · exact absurd hstop (Nat.not_lt_of_le (hpast h' hmem'))
    · intro htoken
      exact ⟨h, hmem, htoken, hg.begun h hmem, by simpa [Entry.isLive] using hlive⟩

/-- A lock is held exactly if something is live under its key. -/
theorem Guards.running_iff (hg : σ.Guards key now) :
    (∃ h ∈ σ.log.tenures key, h.Running now) ↔ (σ.store.live? now key).isSome = true := by
  constructor
  · rintro ⟨h, hmem, hrunning⟩
    have hheld := hg.heldBy_iff.mp ⟨h, hmem, rfl, hrunning⟩
    rw [CoordStore.isHeldBy_iff, CoordStore.datum?, Option.map_eq_some_iff] at hheld
    obtain ⟨e, he, -⟩ := hheld
    rw [he]
    rfl
  · intro hlive
    have hshows := hg.shows
    obtain ⟨e, he⟩ := Option.isSome_iff_exists.mp hlive
    rw [he] at hshows
    obtain ⟨h, past, hhs, rfl, -⟩ := hshows
    have hheld : σ.store.isHeldBy now key h.token = true := by
      rw [CoordStore.isHeldBy_iff, CoordStore.datum?, he]
      rfl
    obtain ⟨h', hmem, -, hrunning⟩ := hg.heldBy_iff.mpr hheld
    exact ⟨h', hmem, hrunning⟩

/-! ### Steps keep the invariant -/

/-- A call elsewhere makes no tenure of a lock and ends none. -/
theorem tenures_of_elsewhere {answer : Except CoordError c.Result} {log : Log}
    (helsewhere : c.Elsewhere key) :
    Log.tenures key (⟨now, .coord c, answer⟩ :: log) = Log.tenures key log := by
  cases c with
  | tryLock k token ttl =>
    have hk : k ≠ key := helsewhere
    rcases answer with _ | _ | _ <;> simp [Log.tenures, Exchange.onTenures, hk]
  | unlock k token =>
    have hk : k ≠ key := helsewhere
    rcases answer with _ | _ | _ <;> simp [Log.tenures, Exchange.onTenures, hk]
  | _ => rfl

/-- A lock is taken when all its tenures have stopped, so that a new one comes after them. -/
theorem Guards.tryLock {ttl : Duration} (hg : σ.Guards key now) :
    (σ.step (.call now (.tryLock key token ttl))).Guards key now := by
  cases hp : σ.store.perform now (.tryLock key token ttl) with
  | error o =>
    rw [step_overflowed hp]
    exact hg
  | ok reply =>
    obtain ⟨answer, s'⟩ := reply
    rw [step_answered hp]
    rcases CoordStore.perform_tryLock hp with ⟨hrefused, rfl⟩ | ⟨rfl, hfree, rfl⟩
    · refine hg.congr ?_ rfl
      rcases answer with _ | _ | _
      · rfl
      · rfl
      · exact absurd rfl hrefused
    · -- Nothing is live under the key, so that every tenure has stopped by now.
      have hover : ∀ h ∈ σ.log.tenures key, h.stop ≤ now := by
        have hshows := hg.shows
        rwa [hfree] at hshows
      have htenures : Log.tenures key (⟨now, .coord (.tryLock key token ttl), .ok true⟩ :: σ.log) =
          ⟨token, now, now + ttl.nanos⟩ :: σ.log.tenures key := if_pos rfl
      refine ⟨?_, ?_, ?_⟩
      · rw [htenures]
        exact List.pairwise_cons.mpr ⟨hover, hg.apart⟩
      · rw [htenures]
        intro h hmem
        rcases List.mem_cons.mp hmem with rfl | hmem
        · exact Nat.le_refl now
        · exact hg.begun h hmem
      · rw [htenures, CoordStore.live?_of_entry CoordStore.entries_put_self]
        by_cases hlasts : now < now + ttl.nanos
        · rw [if_pos (by simpa [Entry.isLive] using hlasts)]
          exact ⟨_, _, rfl, rfl, hover⟩
        · -- A time to live of nothing is over at once.
          rw [if_neg (by simpa [Entry.isLive] using hlasts)]
          intro h hmem
          rcases List.mem_cons.mp hmem with rfl | hmem
          · exact Nat.le_of_not_lt hlasts
          · exact hover h hmem

/-- To give a lock back stops the tenure of the token, if it runs, and no other. -/
theorem Guards.unlock (hg : σ.Guards key now) :
    (σ.step (.call now (.unlock key token))).Guards key now := by
  cases havailable : σ.store.available with
  | false =>
    rw [step_answered (CoordStore.perform_unreachable havailable _)]
    exact hg.congr rfl rfl
  | true =>
    rw [step_answered (CoordStore.perform_unlock_eq havailable)]
    cases hheld : σ.store.isHeldBy now key token with
    | false => exact hg.congr rfl (CoordStore.live?_settle (Nat.le_refl now))
    | true =>
      have htenures : Log.tenures key (⟨now, .coord (.unlock key token), .ok true⟩ :: σ.log) =
          (σ.log.tenures key).map (Tenure.givenBack token now) := if_pos rfl
      -- A tenure only gets shorter, so that what was apart stays apart.
      refine ⟨?_, ?_, ?_⟩
      · rw [htenures, List.pairwise_map]
        exact hg.apart.imp fun h => Nat.le_trans Tenure.stop_givenBack_le (by simpa using h)
      · rw [htenures]
        intro h hmem
        obtain ⟨h', hmem', rfl⟩ := List.mem_map.mp hmem
        simpa using hg.begun h' hmem'
      · rw [htenures]
        show Tenure.Shows now _ ((σ.store.drop key).live? now key)
        rw [CoordStore.live?_of_absent CoordStore.entries_drop_self]
        intro h hmem
        obtain ⟨h', hmem', rfl⟩ := List.mem_map.mp hmem
        by_cases hstop : now < h'.stop
        · -- What runs is held by the token that lies under the key.
          have hown := hg.heldBy_iff.mp ⟨h', hmem', rfl, hg.begun h' hmem', hstop⟩
          rw [CoordStore.isHeldBy_iff] at hown hheld
          rw [hown] at hheld
          cases hheld
          exact Tenure.stop_givenBack_self
        · exact Nat.le_trans Tenure.stop_givenBack_le (Nat.le_of_not_lt hstop)

theorem Guards.call (hg : σ.Guards key now) (hcall : c.Locks key ∨ c.Elsewhere key) :
    (σ.step (.call now c)).Guards key now := by
  rcases hcall with hlocks | helsewhere
  · cases c with
    | tryLock k token ttl =>
      obtain rfl : k = key := hlocks
      exact hg.tryLock
    | unlock k token =>
      obtain rfl : k = key := hlocks
      exact hg.unlock
    | _ => exact hlocks.elim
  · cases hp : σ.store.perform now c with
    | error o =>
      rw [step_overflowed hp]
      exact hg
    | ok reply =>
      obtain ⟨answer, s'⟩ := reply
      rw [step_answered hp]
      exact hg.congr (tenures_of_elsewhere helsewhere)
        (CoordStore.live?_congr (CoordStore.entries_of_elsewhere hp helsewhere))

/-- Whatever the steps are, at times that do not run backwards, the invariant is kept. -/
theorem Guards.after {start : Moment} {steps : List CoordStep} (hg : σ.Guards key start)
    (hsteps : ∀ x ∈ steps, x.OnLock key)
    (htimes : (start :: (steps.filterMap CoordStep.time? ++ [now])).Pairwise (· ≤ ·)) :
    (σ.after steps).Guards key now := by
  -- By induction on the steps: time passes until a step takes place, and then it takes place.
  induction steps generalizing σ start with
  | nil => exact hg.at_later (List.rel_of_pairwise_cons htimes List.mem_cons_self)
  | cons x steps ih =>
    have hrest : ∀ x ∈ steps, x.OnLock key := fun y hy => hsteps y (List.mem_cons_of_mem x hy)
    have hx := hsteps x List.mem_cons_self
    cases x with
    | switch available patternDelete => exact ih (hg.congr rfl rfl) hrest htimes
    | call time c =>
      have hle : start ≤ time := List.rel_of_pairwise_cons htimes List.mem_cons_self
      exact ih ((hg.at_later hle).call hx) hrest htimes.of_cons

/-! ### Exclusion -/

/-- What calls on a lock are answered at a time. -/
structure Excludes (σ : CoordRun) (key : String) (now : Moment) : Prop where
  /-- While a tenure runs the lock cannot be taken. -/
  taken (token : String) (ttl : Duration) :
    (∃ h ∈ σ.log.tenures key, h.Running now) →
      σ.store.perform now (.tryLock key token ttl) = .ok (.ok false, σ.store)
  /-- While none runs it can be taken, unless the clock cannot reach the deadline. -/
  free (token : String) (ttl : Duration) :
    (¬ ∃ h ∈ σ.log.tenures key, h.Running now) →
      σ.store.perform now (.tryLock key token ttl) =
        (now.after ttl).map fun stop => (.ok true, σ.store.put key ⟨.text token, some stop⟩)
  /-- A token gives the lock back exactly while its own tenure runs, and otherwise changes
      nothing that can be seen under any key, now or later. -/
  unlock (token : String) :
    ∃ answer s', σ.store.perform now (.unlock key token) = .ok (.ok answer, s') ∧
      (answer = true ↔ ∃ h ∈ σ.log.tenures key, h.token = token ∧ h.Running now) ∧
      (answer = false → ∀ k later, now ≤ later → s'.live? later k = σ.store.live? later k)

theorem Guards.excludes (hg : σ.Guards key now) (havailable : σ.store.available = true) :
    σ.Excludes key now where
  taken token ttl hrunning := by
    rw [CoordStore.perform_tryLock_eq havailable, if_pos (hg.running_iff.mp hrunning)]
  free token ttl hnone := by
    rw [CoordStore.perform_tryLock_eq havailable, if_neg fun h => hnone (hg.running_iff.mpr h)]
  unlock token := by
    refine ⟨_, _, CoordStore.perform_unlock_eq havailable, hg.heldBy_iff.symm, ?_⟩
    intro hfree k later hle
    rw [hfree]
    exact CoordStore.live?_settle hle

/-- On a key where nothing is at first, take and give back a lock under any tokens and with any
    times to live, with any calls elsewhere and any trouble in between, at times that do not run
    backwards. No two tenures overlap; and whenever the store can be reached, the lock is taken
    exactly while none of them runs, and a token gives it back exactly while its own one does. -/
theorem locks_exclude {s : CoordStore} {key : String} {start now : Moment}
    {steps : List CoordStep} (hfree : s.live? start key = none)
    (hsteps : ∀ x ∈ steps, x.OnLock key)
    (htimes : (start :: (steps.filterMap CoordStep.time? ++ [now])).Pairwise (· ≤ ·)) :
    (((⟨s, []⟩ : CoordRun).after steps).log.tenures key).Pairwise
        (fun later earlier => earlier.stop ≤ later.start) ∧
      (((⟨s, []⟩ : CoordRun).after steps).store.available = true →
        ((⟨s, []⟩ : CoordRun).after steps).Excludes key now) := by
  have hstart : (⟨s, []⟩ : CoordRun).Guards key start := by
    refine ⟨List.Pairwise.nil, nofun, ?_⟩
    show Tenure.Shows start [] (s.live? start key)
    rw [hfree]
    exact nofun
  have hguards := hstart.after hsteps htimes
  exact ⟨hguards.apart, hguards.excludes⟩

/-- A lock is taken for two seconds and taken by another token when these are over; then the
    first token comes to give it back. -/
def lateUnlock : List CoordStep :=
  [.call 0 (.tryLock "l" "a" (.seconds 2)), .call 1 (.setText "m" "x" none), .switch true false,
    .call (Duration.seconds 3).nanos (.tryLock "l" "b" (.seconds 2)),
    .call (Duration.seconds 4).nanos (.unlock "l" "a")]

theorem locks_exclude_lateUnlock :
    (({} : CoordRun).after lateUnlock).log.tenures "l" =
        [⟨"b", (Duration.seconds 3).nanos, (Duration.seconds 5).nanos⟩,
          ⟨"a", 0, (Duration.seconds 2).nanos⟩] ∧
      (({} : CoordRun).after lateUnlock).Excludes "l" (Duration.seconds 4).nanos := by
  have hsteps : ∀ x ∈ lateUnlock, x.OnLock "l" := by
    intro x hx
    simp only [lateUnlock, List.mem_cons, List.not_mem_nil, or_false] at hx
    rcases hx with rfl | rfl | rfl | rfl | rfl
    · exact .inl rfl
    · exact .inr (show "m" ≠ "l" by decide)
    · trivial
    · exact .inl rfl
    · exact .inl rfl
  have htimes : (0 :: (lateUnlock.filterMap CoordStep.time? ++
      [(Duration.seconds 4).nanos])).Pairwise (· ≤ ·) := by decide
  exact ⟨rfl, (locks_exclude rfl hsteps htimes).2 rfl⟩

end CoordRun

end ExecutionControl
