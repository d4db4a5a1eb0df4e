import ExecutionControl.Proofs.Schedules
import ExecutionControl.Proofs.Tracking.Records

/-! # Records that can be read

    Operations on the record of one execution run side by side on a store that never fails.
    Wherever they stand, a lookup finds a record or none, as long as the record does not go
    away where an operation is midway (`records_readable`): every operation that starts a
    record writes the status first, and everything else is written beside a status.

    The condition cannot be dropped. The status is written by a call of its own; if the record
    is deleted or expires before the calls that follow, then these make a record of their own
    that has no status (`records_readable_fails_after_deletion`).
-/

namespace ExecutionControl

namespace Tracker

/-! ### Runs -/

section Runs

variable {t : Tracker} (workflowId executionId : String)

/-- Whether a worker that runs has more to write. -/
def Midway (w : Worker (t.repertoire workflowId executionId)) : Prop :=
  w.isRunning = true ∧ ((t.discipline workflowId executionId).stageOf w).isMidway = true

/-- Whether some worker that runs has more to write. -/
def AnyMidway (σ : Scene (t.repertoire workflowId executionId)) : Prop :=
  ∃ w ∈ σ.workers, Midway workflowId executionId w

instance : DecidablePred (AnyMidway (t := t) workflowId executionId) := fun _ => by
  unfold AnyMidway Midway
  infer_instance

/-- The scenes that operations on the record of an execution reach on a store that never fails
    and has no such record, with the chronicle of what they have done. The record lasts through
    every step out of a scene in which `lasting` holds. -/
inductive Runs (lasting : Scene (t.repertoire workflowId executionId) → Prop) :
    Scene (t.repertoire workflowId executionId) →
    Chronicle (t.repertoire workflowId executionId) → Prop
  | start {s : Shared} (habsent : s.coord.live? s.now (Key.execution workflowId executionId) = none)
      (havailable : s.coord.available = true) : Runs lasting ⟨s, []⟩ []
  | step {σ σ' : Scene (t.repertoire workflowId executionId)}
      {told new : Chronicle (t.repertoire workflowId executionId)} (h : Runs lasting σ told)
      (hstep : σ.Adds .never new σ') (hfits : ∀ w ∈ σ'.workers, w.op.Fits)
      (hlasts : lasting σ →
        σ.shared.RecordLasts (Key.execution workflowId executionId) σ'.shared) :
      Runs lasting σ' (new ++ told)

/-- A scene in which a lookup finds a record or none: it stands for a record wherever a worker
    is midway. -/
structure Readable (σ : Scene (t.repertoire workflowId executionId)) (f : Fields)
    (record : Option Tracked) : Prop where
  available : σ.shared.coord.available = true
  carries : σ.shared.coord.Carries σ.shared.now (Key.execution workflowId executionId) f record
  midway : ∀ w ∈ σ.workers, Midway workflowId executionId w → record.isSome
  kept : ∀ w ∈ σ.workers, (t.discipline workflowId executionId).KeptTo TrackStage.Ended w

end Runs

variable {t : Tracker} {workflowId executionId : String}
  {lasting : Scene (t.repertoire workflowId executionId) → Prop}
  {σ σ' : Scene (t.repertoire workflowId executionId)}
  {told new : Chronicle (t.repertoire workflowId executionId)} {f : Fields}
  {record : Option Tracked}

/-- Operations that start are not midway. -/
theorem not_midway_worker (op : TrackerOperation) :
    ¬ Midway workflowId executionId ((t.repertoire workflowId executionId).worker op) :=
  fun h => Bool.false_ne_true h.2

/-- Every step leads to a scene in which a lookup finds a record or none. -/
theorem Readable.step (h : Readable workflowId executionId σ f record)
    (hstep : σ.Adds .never new σ') (hfits : ∀ w ∈ σ'.workers, w.op.Fits)
    (hlasts : AnyMidway workflowId executionId σ →
      σ.shared.RecordLasts (Key.execution workflowId executionId) σ'.shared) :
    ∃ f' record', Readable workflowId executionId σ' f' record' := by
  have hkept := (endsAs t workflowId executionId).keptTo_step h.kept hstep.step
  have havailable : σ'.shared.coord.available = true := by
    rw [hstep.step.available]
    exact h.available
  -- A worker that was midway before finds the record that there was.
  have hmidway : ∀ {before : Option Tracked} {w}, w ∈ σ.workers →
      Midway workflowId executionId w →
      (σ.shared.RecordLasts (Key.execution workflowId executionId) σ'.shared → before = record) →
      before.isSome := fun hw hmid hbefore =>
    hbefore (hlasts ⟨_, hw, hmid⟩) ▸ h.midway _ hw hmid
  cases hstep with
  | start op =>
    refine ⟨f, record, havailable, h.carries, fun w hw hmid => ?_, hkept⟩
    rcases List.mem_append.mp hw with hw | hw
    · exact h.midway w hw hmid
    · rw [List.mem_singleton.mp hw] at hmid
      exact absurd hmid (not_midway_worker op)
  | wait hnow =>
    obtain ⟨f', before, h', hbefore⟩ := Shared.record_passes h.carries (Shared.wait _ _) hnow
    exact ⟨f', before, havailable, h', fun w hw hmid => hmidway hw hmid hbefore, hkept⟩
  | @asked s s' ws i w r next reply hw hleft hs =>
    have hmem := List.mem_of_getElem? hw
    have hrunning : w.isRunning := Worker.isRunning_of_left hleft
    have hi : i < ws.length := (List.getElem?_eq_some_iff.mp hw).1
    have hfits' : w.op.Fits := hfits (w.asked s' r reply (next reply)) (List.mem_set hi _)
    obtain ⟨f', before, record', h', -, heffect, hstays⟩ :=
      Shared.request_effect h.carries h.available ((h.kept w hmem).permits hleft) hfits'
        (fun hg => ⟨h.midway w hmem ⟨hrunning, hg⟩, hlasts ⟨w, hmem, hrunning, hg⟩⟩) hs
    refine ⟨f', record', havailable, h', fun v hv hmid => ?_, hkept⟩
    rcases List.mem_or_eq_of_mem_set hv with hv | rfl
    · exact (hstays (hlasts ⟨v, hv, hmid⟩)).2 (h.midway v hv hmid)
    · -- An operation that has more to write has found a record or made one.
      cases record' with
      | some x => rfl
      | none => exact absurd hmid.2 (Bool.eq_false_iff.mp (heffect.absent rfl).1)
  | @stopped s s' ws i w r next o hw hleft hs =>
    obtain ⟨f', before, h', hbefore⟩ := Shared.record_passes h.carries s' hs.now_le
    rw [← hs.stopped.1] at h'
    refine ⟨f', before, havailable, h', fun v hv hmid => ?_, hkept⟩
    rcases List.mem_or_eq_of_mem_set hv with hv | rfl
    · exact hmidway hv hmid hbefore
    · exact absurd hmid.1 Bool.false_ne_true

theorem Runs.readable (h : Runs workflowId executionId lasting σ told)
    (hlasting : ∀ σ, AnyMidway workflowId executionId σ → lasting σ) :
    ∃ f record, Readable workflowId executionId σ f record := by
  induction h with
  | start habsent havailable =>
    exact ⟨∅, none, havailable, CoordStore.carries_none habsent, nofun, nofun⟩
  | step _ hstep hfits hlasts ih =>
    obtain ⟨f, record, hreadable⟩ := ih
    exact hreadable.step hstep hfits fun hmid => hlasts (hlasting _ hmid)

/-- Whatever operations run on the record of an execution, and whenever it expires or is
    deleted while no operation is midway, a lookup finds a record or none; it does not stay
    unknown whether there is one. -/
theorem records_readable {out : Checked StatusLookup} {p : Point}
    (h : Runs workflowId executionId (AnyMidway workflowId executionId) σ told)
    (hget : (get workflowId executionId).Ends .never ⟨σ.shared, []⟩ out p) :
    out = .ok .missing ∨ ∃ r, out = .ok (.found r) := by
  obtain ⟨f, record, hreadable⟩ := h.readable fun _ hmid => hmid
  obtain ⟨a, rfl, ⟨rfl, -⟩ | ⟨x, r, -, rfl, -⟩⟩ :=
    get_ends hreadable.carries hreadable.available hget
  · exact .inl rfl
  · exact .inr ⟨r, rfl⟩

/-! ### Schedules -/

section Schedules

variable (workflowId executionId) (lasting)

/-- Whether every scene of a schedule is one of a run. -/
def Smooth (σ : Scene (t.repertoire workflowId executionId)) :
    List (t.repertoire workflowId executionId).Turn → Prop
  | [] => True
  | turn :: turns =>
    (∀ w ∈ (σ.turn turn).workers, w.op.Fits) ∧
      (lasting σ →
        σ.shared.RecordLasts (Key.execution workflowId executionId) (σ.turn turn).shared) ∧
      Smooth (σ.turn turn) turns

instance decidableSmooth [DecidablePred lasting] :
    (turns : List (t.repertoire workflowId executionId).Turn) →
    (σ : Scene (t.repertoire workflowId executionId)) →
    Decidable (Smooth workflowId executionId lasting σ turns)
  | [], _ => isTrue trivial
  | turn :: turns, σ =>
    have := decidableSmooth turns (σ.turn turn)
    inferInstanceAs (Decidable (_ ∧ _ ∧ _))

end Schedules

theorem runs_empty (t : Tracker) (workflowId executionId : String)
    (lasting : Scene (t.repertoire workflowId executionId) → Prop) :
    Runs workflowId executionId lasting ⟨{}, []⟩ [] :=
  .start (CoordStore.live?_of_absent (by simp)) rfl

theorem Runs.play {turns : List (t.repertoire workflowId executionId).Turn}
    (h : Runs workflowId executionId lasting σ told)
    (hsmooth : Smooth workflowId executionId lasting σ turns) :
    Runs workflowId executionId lasting (σ.after turns) (σ.chronicle turns ++ told) := by
  induction turns generalizing σ told with
  | nil => exact h
  | cons turn turns ih =>
    obtain ⟨hfits, hlasts, hrest⟩ := hsmooth
    simp only [Scene.chronicle, List.append_assoc]
    refine ih ?_ hrest
    rcases σ.turn_adds .never turn with hstep | ⟨hnone, hsame⟩
    · exact .step h hstep hfits hlasts
    · rw [hnone, hsame]
      exact h

/-- A lookup that runs alone, answered without delay. -/
def lookUp (workflowId executionId : String) (s : Shared) : Checked StatusLookup × Point :=
  (get workflowId executionId).run (Point.answer fun _ => none) ⟨s, []⟩

theorem lookUp_ends (workflowId executionId : String) (s : Shared) :
    (get workflowId executionId).Ends .never ⟨s, []⟩ (lookUp workflowId executionId s).1
      (lookUp workflowId executionId s).2 := by
  have hnone : ∀ call e, (fun _ => none : CoordCall → Option CoordError) call = some e →
      Faults.never.coord call e := nofun
  exact Program.ends_run hnone _ _

/-- The counter of completed files that a lookup has found. -/
def completed? : Checked StatusLookup → Option Nat
  | .ok (.found r) => some r.completedFiles
  | _ => none

/-- Whether a lookup has found that there is no record. -/
def isMissing : Checked StatusLookup → Bool
  | .ok .missing => true
  | _ => false

/-- Whether a lookup could not tell whether there is a record. -/
def isUnknown : Checked StatusLookup → Bool
  | .ok .unknown => true
  | _ => false

/-- Tracking with the default times to live. -/
abbrev withDefaultTtls : Tracker := ⟨{}⟩

/-- A file is counted, the record is deleted, and another file is counted. -/
def countedAnew : List (withDefaultTtls.repertoire "w" "e").Turn :=
  .start (.increment .completed) :: List.replicate 7 (.next 0) ++
    .start .delete :: .next 1 :: .start (.increment .completed) :: List.replicate 6 (.next 2)

theorem records_readable_counted_anew :
    ∃ (σ : Scene (withDefaultTtls.repertoire "w" "e")) (told : _) (out : _) (p : Point),
      Runs "w" "e" (AnyMidway "w" "e") σ told ∧
      (get "w" "e").Ends .never ⟨σ.shared, []⟩ out p ∧
      ∃ r, out = .ok (.found r) ∧ r.completedFiles = 1 := by
  have hsmooth : Smooth "w" "e" (AnyMidway "w" "e") ⟨{}, []⟩ countedAnew := by decide +kernel
  have hone : completed? (lookUp "w" "e" (Scene.after ⟨{}, []⟩ countedAnew).shared).1 = some 1 := by
    decide +kernel
  have hruns := (runs_empty withDefaultTtls "w" "e" (AnyMidway "w" "e")).play hsmooth
  -- The last scene is not computed any further.
  generalize Scene.after ⟨{}, []⟩ countedAnew = σ at hone hruns
  have hget := lookUp_ends "w" "e" σ.shared
  refine ⟨σ, _, _, _, hruns, hget, ?_⟩
  rcases records_readable hruns hget with hmissing | ⟨r, hr⟩
  · rw [hmissing] at hone
    cases hone
  · rw [hr] at hone
    exact ⟨r, hr, Option.some.inj hone⟩

/-- The record is deleted between the first call of an operation that counts a file and the
    calls that follow. -/
def deletedMidway : List (withDefaultTtls.repertoire "w" "e").Turn :=
  .start (.increment .completed) :: .next 0 :: .next 0 ::
    .start .delete :: .next 1 :: List.replicate 5 (.next 0)

/-- What is left then is a counter without a status, though every operation is over. -/
theorem records_readable_fails_after_deletion :
    ∃ (σ : Scene (withDefaultTtls.repertoire "w" "e")) (told : _) (p : Point),
      Runs "w" "e" (fun _ => False) σ told ∧ (∀ w ∈ σ.workers, w.isDone) ∧
      (get "w" "e").Ends .never ⟨σ.shared, []⟩ (.ok .unknown) p := by
  have hsmooth : Smooth "w" "e" (fun _ => False) ⟨{}, []⟩ deletedMidway := by decide +kernel
  have hchecks : (∀ w ∈ (Scene.after ⟨{}, []⟩ deletedMidway).workers, w.isDone) ∧
      isUnknown (lookUp "w" "e" (Scene.after ⟨{}, []⟩ deletedMidway).shared).1 := by
    decide +kernel
  have hruns := (runs_empty withDefaultTtls "w" "e" fun _ => False).play hsmooth
  generalize Scene.after ⟨{}, []⟩ deletedMidway = σ at hchecks hruns
  obtain ⟨hdone, hunknown⟩ := hchecks
  have hget := lookUp_ends "w" "e" σ.shared
  generalize (lookUp "w" "e" σ.shared).1 = out at hget hunknown
  match out with
  | .ok .unknown => exact ⟨σ, _, _, hruns, hdone, hget⟩

end Tracker

end ExecutionControl
