import ExecutionControl.Proofs.Schedules
import ExecutionControl.Proofs.SystemOperations

/-! # The key space is well typed

    Any operations of the system run side by side, call by call, from a store without
    entries. The calls may fail, if the store cannot be reached or cannot delete by pattern.
    Then every key holds what belongs under it in every scene, no call is ever answered with
    an error about the value under its key, and no execution is let in without a check unless
    the store could not be reached (`keys_well_typed`).

    One invariant carries this: the store is typed, and so all errors so far were outages
    (`Scene.Sound`). A request that is answered keeps it up because every call suits its key.
-/

namespace ExecutionControl

/-! ### Admissions without a check -/

/-- The terms that permit everything. -/
abbrev anything : Terms Log := Discipline.watching fun _ _ => True

/-- A request failed that an admission cannot do without. -/
abbrev Log.FailsVitally (log : Log) : Prop := ∃ x ∈ log, x.failsVitally = true

theorem Log.FailsVitally.cons {log : Log} (h : log.FailsVitally) (x : Exchange) :
    Log.FailsVitally (x :: log) := by
  obtain ⟨y, hy, hfails⟩ := h
  exact ⟨y, List.mem_cons_of_mem x hy, hfails⟩

theorem Program.ensures_anything {α : Type} {prog : Program α} {Q : α → Log → Prop} {log : Log}
    (hQ : ∀ a log', Q a log') : prog.ensures anything Q log := by
  induction prog generalizing log with
  | done a => exact hQ a log
  | ask r next ih => exact ⟨trivial, fun _ reply => ih reply⟩

namespace Admission

variable {a : Admission} {c : ExecutionContext} {now : Timestamp} {log : Log}
  {E : CoordError → Log → Prop}

/-- A vital call ends with an error only if the log shows its failure. -/
theorem excused_call {call : CoordCall} {Q : call.Result → Log → Prop}
    (hvital : (Request.coord call).isVital = true) (hQ : ∀ v log', Q v log')
    (hE : ∀ e log', Log.FailsVitally log' → E e log') :
    Coord.ensures anything Q E (Coord.call call) log := by
  rw [Coord.ensures_call]
  refine ⟨trivial, fun t reply => ?_⟩
  cases reply with
  | ok v => exact hQ v _
  | error e =>
    refine hE e _ ⟨_, List.mem_cons_self, ?_⟩
    unfold Exchange.failsVitally
    rw [hvital]
    rfl

/-- So does the wait for the lock. -/
theorem excused_pollLock {key token : String} {deadline : Moment} {rounds : Nat}
    {Q : Bool → Log → Prop} (hQ : ∀ taken log', Q taken log')
    (hE : ∀ e log', Log.FailsVitally log' → E e log') :
    Coord.ensures anything Q E (a.pollLock key token deadline rounds) log := by
  induction rounds generalizing log with
  | zero =>
    rw [pollLock, Coord.ensures_lift]
    exact ⟨trivial, fun _ reply => reply.elim⟩
  | succ rounds ih =>
    simp only [pollLock, Coord.ensures_bind]
    refine excused_call rfl (fun taken log₁ => ?_) hE
    cases taken with
    | true => exact hQ true log₁
    | false =>
      simp only [Bool.false_eq_true, if_false, Coord.ensures_bind, Coord.ensures_lift,
        Program.ensures_clock]
      refine ⟨trivial, fun t clock => ?_⟩
      by_cases hover : clock ≥ deadline
      · simp only [hover, if_true]
        exact hQ false _
      · simp only [hover, if_false, Coord.ensures_bind, Coord.ensures_lift,
          Program.ensures_sleep]
        exact ⟨trivial, fun _ _ => ih⟩

/-- So does the check under the lock, which itself lets nobody in unchecked. -/
theorem excused_checkAndOccupy {Q : Decision → Log → Prop}
    (hQ : ∀ decision log', decision ≠ .admitted true → Q decision log')
    (hE : ∀ e log', Log.FailsVitally log' → E e log') :
    Coord.ensures anything Q E (a.checkAndOccupy c now) log := by
  simp only [checkAndOccupy, purge, Coord.ensures_bind]
  -- All calls up to the decision are vital, but for those that look the ceiling up.
  refine excused_call rfl (fun _ _ => ?_) hE
  refine excused_call rfl (fun _ _ => ?_) hE
  refine excused_call rfl (fun orgCount _ => ?_) hE
  rw [Coord.ensures_lift]
  refine Program.ensures_anything fun orgLimit log₁ => ?_
  by_cases horg : orgCount ≥ orgLimit
  · simp only [horg, if_true, Coord.ensures_pure]
    exact hQ _ _ (by simp)
  · simp only [horg, if_false, Coord.ensures_bind]
    refine excused_call rfl (fun globalCount log₂ => ?_) hE
    by_cases hglobal : globalCount ≥ a.config.globalLimit
    · simp only [hglobal, if_true, Coord.ensures_bind, Coord.ensures_lift,
        Program.ensures_report]
      exact ⟨trivial, fun _ _ => hQ _ _ (by simp)⟩
    · simp only [hglobal, if_false, Coord.ensures_bind]
      refine excused_call rfl (fun _ _ => ?_) hE
      refine excused_call rfl (fun _ log₃ => ?_) hE
      exact hQ _ log₃ (by simp)

/-- An admission without a check: a vital request has failed before. -/
def Excused (result : Except AdmissionError Decision) (log : Log) : Prop :=
  result = .ok (.admitted true) → log.FailsVitally

theorem excused_failOpen {e : CoordError} (h : log.FailsVitally) :
    (failOpen e).ensures anything (fun decision log => Excused (.ok decision) log) log := by
  simp only [failOpen, Program.ensures_bind, Program.ensures_report]
  exact ⟨trivial, fun _ _ _ => h.cons _⟩

theorem excused_decideLocked {token : String} :
    (a.decideLocked c now token).ensures anything
      (fun decision log => Excused (.ok decision) log) log := by
  simp only [decideLocked, Program.ensures_bind, Program.ensures_run, Program.ensures_coord]
  refine excused_checkAndOccupy (fun decision log₁ hdecision => ?_) fun e log₁ hfails => ?_
  · refine ⟨trivial, fun _ _ hresult => ?_⟩
    exact absurd (Except.ok.inj hresult) hdecision
  · -- The lock is given back in between, which leaves the failure in the log.
    exact ⟨trivial, fun _ _ => excused_failOpen (hfails.cons _)⟩

/-- An execution is let in without a check only after a vital call has failed. -/
theorem excused_tryAdmitAt (a : Admission) (c : ExecutionContext) (now : Timestamp) :
    (a.tryAdmitAt c now).ensures anything Excused log := by
  simp only [tryAdmitAt, acquireLock, Program.ensures_bind, Program.ensures_token,
    Program.ensures_run, Coord.ensures_bind, Coord.ensures_lift, Program.ensures_clock]
  refine ⟨trivial, fun _ token => ⟨trivial, fun _ start => ?_⟩⟩
  refine Program.ensures_ofChecked (fun deadline _ => ?_)
    fun _ _ => ⟨trivial, fun _ reply => reply.elim⟩
  refine excused_pollLock (fun taken log₁ => ?_) fun e log₁ hfails => ?_
  · cases taken with
    | true =>
      simp only [Program.ensures_map]
      exact excused_decideLocked
    | false =>
      intro hresult
      cases hresult
  · simp only [Program.ensures_map]
    exact excused_failOpen hfails

theorem excused_tryAdmit (a : Admission) (c : ExecutionContext) :
    (a.tryAdmit c).ensures anything Excused log := by
  simp only [tryAdmit, Program.ensures_bind, Program.ensures_time]
  exact ⟨trivial, fun _ now => a.excused_tryAdmitAt c now⟩

end Admission

/-! ### The programs of the system -/

/-- Only calls that suit their keys. -/
abbrev System.discipline (sys : System) : Discipline sys.repertoire :=
  .ofLog fun _ _ r => r.Suits

/-- The programs keep to it, and let an execution in without a check only after a vital call
    has failed. -/
theorem System.endsAs (sys : System) :
    sys.discipline.EndsAs fun op result log => op.Degraded result → log.FailsVitally := by
  refine Discipline.endsAs_ofLog fun op => (sys.asks_program op).watching ?_
  -- Only admissions end with a decision.
  cases op with
  | onSlots op =>
    cases op with
    | tryAdmit c now => exact sys.operator.admission.excused_tryAdmitAt c now
    | _ => exact Program.ensures_anything fun _ _ h => h.elim
  | tryAdmit c => exact sys.operator.admission.excused_tryAdmit c
  | _ => exact Program.ensures_anything fun _ _ h => h.elim

/-! ### Scenes -/

/-- Calls may fail if the coordination store cannot be reached, and deletions by pattern if
    it does not know them. The durable tables may fail as they like. -/
def Faults.outages : Faults where
  coord call e := e.IsOutage call
  limits _ _ := True
  files _ _ := True

/-- A call that failed met an outage. -/
def Exchange.FailsByOutage (x : Exchange) : Prop :=
  ∀ t call err, x = ⟨t, .coord call, .error err⟩ → err.IsOutage call

/-- A vital call that met an outage could not reach the store. -/
theorem Log.FailsVitally.unavailable {log : Log} (h : log.FailsVitally)
    (hlog : ∀ x ∈ log, x.FailsByOutage) :
    ∃ t call reason, (⟨t, .coord call, .error (.unavailable reason)⟩ : Exchange) ∈ log := by
  obtain ⟨⟨t, r, reply⟩, hmem, hx⟩ := h
  simp only [Exchange.failsVitally, Bool.and_eq_true] at hx
  obtain ⟨hvital, hfailed⟩ := hx
  cases r with
  | coord call =>
    cases reply with
    | ok v => cases hfailed
    | error err =>
      rcases hlog _ hmem t call err rfl with ⟨reason, rfl⟩ | ⟨-, pattern, rfl⟩
      · exact ⟨t, call, reason, hmem⟩
      · -- No admission deletes by pattern.
        cases hvital
  | _ => cases hvital

/-- A request that suits its key leaves a typed store typed, and fails only by an outage. -/
theorem Shared.Serves.typed {s s' : Shared} {r : Request} {reply : r.Reply}
    (h : s.Serves .outages r (.ok reply) s') (hsuits : r.Suits) (htyped : s.coord.Typed) :
    s'.coord.Typed ∧ Exchange.FailsByOutage ⟨s'.now, r, reply⟩ := by
  cases r with
  | coord call =>
    have hcall : call.Suits := hsuits call rfl
    -- It is carried out, or it fails as the faults have it.
    rcases h.answered with hp | ⟨⟨e, he, rfl⟩, hcoord⟩
    · refine ⟨htyped.perform hcall hp, ?_⟩
      rintro t c err ⟨⟩
      exact htyped.isOutage hcall hp
    · rw [hcoord]
      refine ⟨htyped, ?_⟩
      rintro t c err ⟨⟩
      exact he
  | _ =>
    rw [h.coord_eq (by simp)]
    refine ⟨htyped, ?_⟩
    rintro t c err ⟨⟩

variable {sys : System} {σ σ' : Scene sys.repertoire}

/-- The store is typed, and whatever failed so far met an outage. -/
structure Scene.Sound (σ : Scene sys.repertoire) : Prop where
  typed : σ.shared.coord.Typed
  outages : ∀ w ∈ σ.workers, ∀ x ∈ w.log, x.FailsByOutage

/-- A step of workers that keep to the discipline leaves a scene sound. -/
theorem Scene.Sound.step (h : σ.Sound)
    (hsuits : ∀ w ∈ σ.workers, ∀ r next, w.left = .ok (.ask r next) → r.Suits)
    (hstep : σ.Step .outages σ') : σ'.Sound := by
  constructor
  case typed =>
    cases hstep.effect with
    | passes _ hs =>
      rw [hs]
      exact h.typed
    | asked hw hleft hs => exact (hs.typed (hsuits _ hw _ _ hleft) h.typed).1
    | stopped _ _ hs =>
      rw [hs.stopped.1]
      exact h.typed
  case outages =>
    intro v hv
    obtain ⟨j, hj⟩ := List.getElem?_of_mem hv
    cases hstep.outcome hj with
    | same hold => exact h.outages v (List.mem_of_getElem? hold)
    | started op _ hv =>
      rw [hv]
      intro x hx
      cases hx
    -- The stores were typed before the step, and so the call failed by an outage if at all.
    | asked hw hleft hs hv =>
      have hmem := List.mem_of_getElem? hw
      have hsound := hs.typed (hsuits _ hmem _ _ hleft) h.typed
      rw [hv]
      exact List.forall_mem_cons.mpr ⟨hsound.2, h.outages _ hmem⟩
    | @stopped w r next o hw _ _ hv =>
      rw [hv]
      exact h.outages w (List.mem_of_getElem? hw)

/-- Every scene that can be reached is sound. -/
theorem Reachable.sound (h : Reachable .outages (fun _ => True) σ) : σ.Sound := by
  induction h with
  | start hs _ =>
    refine ⟨CoordStore.typed_empty hs, fun w hw => ?_⟩
    cases hw
  | step hσ hstep _ ih =>
    -- Whatever the others did before, the next request of a worker suits its key.
    refine ih.step (fun w hw r next hleft => ?_) hstep
    exact (sys.endsAs.keptTo hσ w hw).permits hleft

/-- However operations of the system run side by side, and whenever the store cannot be
    reached or cannot delete by pattern: every key holds what belongs under it, whatever the
    names in the keys, no call fails but for these reasons, and an execution is let in without
    a check only after a call of its admission could not reach the store. -/
theorem keys_well_typed (sys : System) {σ : Scene sys.repertoire}
    (h : Reachable .outages (fun _ => True) σ) :
    (∀ key e, σ.shared.coord.entries[key]? = some e → Key.Holds key e.datum) ∧
      (∀ w ∈ σ.workers, ∀ t call err,
        (⟨t, .coord call, .error err⟩ : Exchange) ∈ w.log → err.IsOutage call) ∧
      ∀ w ∈ σ.workers, ∀ result, w.left = .ok (.done result) →
        SystemOperation.Degraded w.op result →
        ∃ t call reason, (⟨t, .coord call, .error (.unavailable reason)⟩ : Exchange) ∈ w.log := by
  refine ⟨h.sound.typed, fun w hw t call err hmem => ?_, fun w hw result hleft hdegraded => ?_⟩
  · exact h.sound.outages w hw _ hmem t call err rfl
  · have hends := (sys.endsAs.keptTo h w hw).done hleft hdegraded
    rw [Discipline.stageOf_ofLog] at hends
    exact hends.unavailable (h.sound.outages w hw)

/-- A system in which everybody has a ceiling of one. -/
def smallSystem : System := ⟨⟨.withCeilings 1 1⟩, ⟨{}⟩⟩

/-- An execution is tracked and then admitted. -/
def trackAndAdmit : List smallSystem.repertoire.Turn :=
  .start (.onRecord "w" "e" (.create 3)) :: List.replicate 7 (.next 0) ++
    .start (.tryAdmit ⟨"o", "w", "e", "c"⟩) :: List.replicate 14 (.next 1)

/-- Whether a worker has let an execution in without a check. -/
def Worker.isUnchecked : Worker smallSystem.repertoire → Bool
  | ⟨.tryAdmit _, .ok (.done (.ok (.admitted true))), _⟩ => true
  | _ => false

theorem Worker.degraded_of_isUnchecked {w : Worker smallSystem.repertoire}
    (h : w.isUnchecked) :
    ∃ result, w.left = .ok (.done result) ∧ SystemOperation.Degraded w.op result := by
  unfold isUnchecked at h
  split at h
  · exact ⟨_, rfl, rfl⟩
  · cases h

/-- If the store can be reached, the record, both slots and the ceiling lie there in the end;
    if not, the execution is let in without a check. -/
theorem keys_well_typed_track_and_admit :
    (∃ σ : Scene smallSystem.repertoire, σ.shared.coord.entries.size = 4 ∧
      ∀ key e, σ.shared.coord.entries[key]? = some e → Key.Holds key e.datum) ∧
    ∃ (σ : Scene smallSystem.repertoire) (w : Worker smallSystem.repertoire), w ∈ σ.workers ∧
      w.isUnchecked ∧
      ∃ t call reason, (⟨t, .coord call, .error (.unavailable reason)⟩ : Exchange) ∈ w.log := by
  have hreach : ∀ s : Shared, s.coord.entries = ∅ →
      Reachable .outages (fun _ => True) (Scene.after ⟨s, []⟩ trackAndAdmit) :=
    fun s hs => (Reachable.start hs trivial).steps (Scene.steps_after _ _ _)
  constructor
  · have hsize : (Scene.after ⟨{}, []⟩ trackAndAdmit).shared.coord.entries.size = 4 := by
      decide +kernel
    exact ⟨_, hsize, (keys_well_typed _ (hreach {} rfl)).1⟩
  · have hlast : ((Scene.after ⟨{ coord := { available := false } }, []⟩
        trackAndAdmit).workers[1]?.any Worker.isUnchecked) = true := by decide +kernel
    obtain ⟨w, hw, hunchecked⟩ := (Option.any_eq_true _ _).mp hlast
    obtain ⟨result, hleft, hdegraded⟩ := w.degraded_of_isUnchecked hunchecked
    have hmem := List.mem_of_getElem? hw
    refine ⟨_, w, hmem, hunchecked, ?_⟩
    exact (keys_well_typed _ (hreach { coord := { available := false } } rfl)).2.2 w hmem result
      hleft hdegraded

end ExecutionControl
