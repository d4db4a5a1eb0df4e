import ExecutionControl.Proofs.Tracking.Readability
import Mathlib.Data.List.Basic

/-! # No lost increment

    Operations on the record of one execution run side by side on a store that never fails,
    and the record lasts. When all are over, a lookup finds what the chronicle of their calls
    makes of a record: the status of the last update, the total of the last creation, and
    every count, whichever calls of other operations fell between those of an operation; and
    the increments of a counter have given back the numbers from one on, each once
    (`no_lost_increment`).

    A count is made by one call, which answers the sum. So the sums that operations have are
    a permutation of the numbers up to the counter wherever they stand (`Recorded.sums`).
-/

namespace ExecutionControl

/-! ### Lists in which one element is replaced -/

section Lists

variable {α β : Type} {f : α → Option β} {a a' : α} {b : β} {l : List α} {i : Nat}

theorem filterMap_set_of_eq (hi : l[i]? = some a) (hf : f a' = f a) :
    (l.set i a').filterMap f = l.filterMap f := by
  induction l generalizing i with
  | nil => rfl
  | cons first l ih =>
    cases i with
    | zero =>
      obtain rfl : first = a := by simpa using hi
      simp [hf, List.filterMap_cons]
    | succ i => simp [List.filterMap_cons, ih (by simpa using hi)]

theorem filterMap_set_perm (hi : l[i]? = some a) (hf : f a = none) (hf' : f a' = some b) :
    ((l.set i a').filterMap f).Perm (b :: l.filterMap f) := by
  induction l generalizing i with
  | nil => cases hi
  | cons first l ih =>
    cases i with
    | zero =>
      obtain rfl : first = a := by simpa using hi
      simp [hf, hf']
    | succ i =>
      have hrest := ih (i := i) (by simpa using hi)
      rw [List.set_cons_succ, List.filterMap_cons, List.filterMap_cons]
      cases f first with
      | none => exact hrest
      | some c => exact (hrest.cons c).trans (List.Perm.swap _ _ _)

end Lists

namespace Tracker

section Runs

variable {t : Tracker} (workflowId executionId : String)

/-- The sum that a worker has of a counter. -/
def workerSum (c : Counter) (w : Worker (t.repertoire workflowId executionId)) : Option Nat :=
  ((t.discipline workflowId executionId).stageOf w).sumOf c w.op

/-- What a worker that is done has given back for a counter. -/
def returned? (c : Counter) : Worker (t.repertoire workflowId executionId) → Option Nat
  | ⟨.increment c', .ok (.done (.ok n)), _⟩ => if c' = c then some n else none
  | _ => none

/-- What a chronicle makes of a record: the status that an update has written last, the total
    that a creation has written last, and as many counts as were made. -/
def recorded : Chronicle (t.repertoire workflowId executionId) → Tracked
  | [] => {}
  | (op, x) :: told => (recorded told).after op x.request

/-- A scene whose record is the one that the chronicle tells of. -/
structure Recorded (σ : Scene (t.repertoire workflowId executionId))
    (told : Chronicle (t.repertoire workflowId executionId)) (f : Fields)
    (record : Option Tracked) : Prop where
  available : σ.shared.coord.available = true
  carries : σ.shared.coord.Carries σ.shared.now (Key.execution workflowId executionId) f record
  kept : ∀ w ∈ σ.workers, (t.discipline workflowId executionId).KeptTo TrackStage.Ended w
  accords : record.getD {} = recorded workflowId executionId told
  /-- Who has written anything has left a record. -/
  present : ∀ w ∈ σ.workers, (t.discipline workflowId executionId).stageOf w ≠ .fresh →
    record.isSome ∨ w.op = .delete ∧
      ((t.discipline workflowId executionId).stageOf w).isMidway = false
  sound : ∀ w ∈ σ.workers, (t.discipline workflowId executionId).stageOf w ≠ .failed
  sums : ∀ c, (σ.workers.filterMap (workerSum workflowId executionId c)).Perm
    (List.range' 1 ((recorded workflowId executionId told).counts c))

end Runs

variable {t : Tracker} {workflowId executionId : String}
  {σ σ' : Scene (t.repertoire workflowId executionId)}
  {told new : Chronicle (t.repertoire workflowId executionId)} {f : Fields}
  {record : Option Tracked}

/-- The sums of a counter stay the numbers from one on, whatever a worker has asked for. -/
theorem sums_asked {c : Counter} {ws : List (Worker (t.repertoire workflowId executionId))}
    {w w' : Worker (t.repertoire workflowId executionId)} {i n n' : Nat} (hw : ws[i]? = some w)
    (h : (ws.filterMap (workerSum workflowId executionId c)).Perm (List.range' 1 n))
    (hw' : workerSum workflowId executionId c w' = workerSum workflowId executionId c w ∧ n' = n ∨
      workerSum workflowId executionId c w = none ∧
        workerSum workflowId executionId c w' = some (n + 1) ∧ n' = n + 1) :
    ((ws.set i w').filterMap (workerSum workflowId executionId c)).Perm (List.range' 1 n') := by
  rcases hw' with ⟨hsame, rfl⟩ | ⟨hnone, hsum, rfl⟩
  · exact (List.Perm.of_eq (filterMap_set_of_eq hw hsame)).trans h
  · refine (filterMap_set_perm hw hnone hsum).trans ((h.cons _).trans ?_)
    rw [List.range'_1_concat, Nat.add_comm n 1]
    exact (List.perm_append_singleton _ _).symm

theorem Recorded.isSome_of_isMidway {w : Worker (t.repertoire workflowId executionId)}
    (h : Recorded workflowId executionId σ told f record) (hw : w ∈ σ.workers)
    (hmidway : ((t.discipline workflowId executionId).stageOf w).isMidway = true) :
    record.isSome := by
  have hfresh : (t.discipline workflowId executionId).stageOf w ≠ .fresh := by
    intro hfresh
    rw [hfresh] at hmidway
    cases hmidway
  rcases h.present w hw hfresh with hsome | ⟨-, hnot⟩
  · exact hsome
  · rw [hmidway] at hnot
    cases hnot

/-- Every step of a run in which the record lasts keeps the record as the chronicle tells. -/
theorem Recorded.step (h : Recorded workflowId executionId σ told f record)
    (hstep : σ.Adds .never new σ') (hfits : ∀ w ∈ σ'.workers, w.op.Fits)
    (hlasts : σ.shared.RecordLasts (Key.execution workflowId executionId) σ'.shared) :
    ∃ f' record', Recorded workflowId executionId σ' (new ++ told) f' record' := by
  have hkept := (endsAs t workflowId executionId).keptTo_step h.kept hstep.step
  have havailable : σ'.shared.coord.available = true := by
    rw [hstep.step.available]
    exact h.available
  cases hstep with
  | start op =>
    refine ⟨f, record, havailable, h.carries, hkept, h.accords, fun w hw hfresh => ?_,
      fun w hw => ?_, fun c => ?_⟩
    · rcases List.mem_append.mp hw with hw | hw
      · exact h.present w hw hfresh
      · rw [List.mem_singleton.mp hw] at hfresh
        exact absurd rfl hfresh
    · rcases List.mem_append.mp hw with hw | hw
      · exact h.sound w hw
      · rw [List.mem_singleton.mp hw]
        intro hfailed
        cases hfailed
    · have hnone : workerSum workflowId executionId c
          ((t.repertoire workflowId executionId).worker op) = none := by
        simp [workerSum, TrackStage.sumOf, Discipline.stageOf, Discipline.stage,
          Repertoire.worker, TrackStage.sum?]
      rw [List.filterMap_append, List.filterMap_cons, hnone, List.filterMap_nil, List.append_nil]
      exact h.sums c
  | wait hnow =>
    obtain ⟨f', before, h', hbefore⟩ := Shared.record_passes h.carries (Shared.wait _ _) hnow
    obtain rfl := hbefore hlasts
    exact ⟨f', before, havailable, h', hkept, h.accords, h.present, h.sound, h.sums⟩
  | @asked s s' ws i w r next reply hw hleft hs =>
    have hmem := List.mem_of_getElem? hw
    have hi : i < ws.length := (List.getElem?_eq_some_iff.mp hw).1
    have hfits' : w.op.Fits := hfits (w.asked s' r reply (next reply)) (List.mem_set hi _)
    obtain ⟨f', before, record', h', hsound, heffect, hstays⟩ :=
      Shared.request_effect h.carries h.available ((h.kept w hmem).permits hleft) hfits'
        (fun hg => ⟨h.isSome_of_isMidway hmem hg, hlasts⟩) hs
    obtain ⟨rfl, hstays⟩ := hstays hlasts
    refine ⟨f', record', havailable, h', hkept, ?_, fun v hv hfresh => ?_, fun v hv => ?_,
      fun c => ?_⟩
    · show record'.getD {} = (recorded workflowId executionId told).after w.op r
      rw [← h.accords]
      cases hrecord : record' with
      | some x => exact heffect.after x hrecord
      | none =>
        -- What is not there was not there before, and the request has written nothing.
        rw [(heffect.absent hrecord).2.1]
        cases before with
        | none => rfl
        | some x => simp [hrecord] at hstays
    · rcases List.mem_or_eq_of_mem_set hv with hv | rfl
      · exact (h.present v hv hfresh).imp_left hstays
      · cases hrecord : record' with
        | some x => exact .inl rfl
        | none =>
          obtain ⟨hmidway, -, hstage | ⟨sum, hsum⟩ | hdelete⟩ := heffect.absent hrecord
          · exact absurd hstage hfresh
          · have hstarted : (t.discipline workflowId executionId).stageOf w ≠ .fresh := by
              intro hfresh
              rw [hsum] at hfresh
              cases hfresh
            rcases h.present w hmem hstarted with hsome | ⟨hdelete, -⟩
            · rw [hrecord] at hstays
              exact absurd (hstays hsome) Bool.false_ne_true
            · exact .inr ⟨hdelete, hmidway⟩
          · exact .inr ⟨hdelete, hmidway⟩
    · rcases List.mem_or_eq_of_mem_set hv with hv | rfl
      · exact h.sound v hv
      · exact hsound
    · have hsums := heffect.sums c
      rw [h.accords] at hsums
      exact sums_asked hw (h.sums c) hsums
  | @stopped s s' ws i w r next o hw hleft hs =>
    obtain ⟨f', before, h', hbefore⟩ := Shared.record_passes h.carries s' hs.now_le
    obtain rfl := hbefore hlasts
    rw [← hs.stopped.1] at h'
    refine ⟨f', before, havailable, h', hkept, h.accords, fun v hv hfresh => ?_, fun v hv => ?_,
      fun c => ?_⟩
    · rcases List.mem_or_eq_of_mem_set hv with hv | rfl
      · exact h.present v hv hfresh
      · exact h.present w (List.mem_of_getElem? hw) hfresh
    · rcases List.mem_or_eq_of_mem_set hv with hv | rfl
      · exact h.sound v hv
      · exact h.sound w (List.mem_of_getElem? hw)
    · have hsame : workerSum workflowId executionId c (w.stopped o) =
          workerSum workflowId executionId c w := rfl
      exact (List.Perm.of_eq (filterMap_set_of_eq hw hsame)).trans (h.sums c)

theorem Runs.recorded (h : Runs workflowId executionId (fun _ => True) σ told) :
    ∃ f record, Recorded workflowId executionId σ told f record := by
  induction h with
  | start habsent havailable =>
    exact ⟨∅, none, havailable, CoordStore.carries_none habsent, nofun, rfl, nofun, nofun,
      fun _ => .refl _⟩
  | step _ hstep hfits hlasts ih =>
    obtain ⟨f, record, hrecorded⟩ := ih
    exact hrecorded.step hstep hfits (hlasts trivial)

/-! ### When all operations are over -/

variable {w : Worker (t.repertoire workflowId executionId)}

/-- An operation that is over and has written has left a record. -/
theorem Recorded.isSome_of_writes (h : Recorded workflowId executionId σ told f record)
    (hw : w ∈ σ.workers) (hdone : w.isDone) (hwrites : w.op.Writes) : record.isSome := by
  obtain ⟨result, hresult⟩ := Worker.exists_of_isDone hdone
  rcases h.present w hw (((h.kept w hw).done hresult).ne_fresh hwrites) with hsome | ⟨hdelete, -⟩
  · exact hsome
  · rw [hdelete] at hwrites
    exact hwrites.elim

/-- An increment that is over gives back the sum that it has. -/
theorem Recorded.sum_of_increment (h : Recorded workflowId executionId σ told f record)
    (hw : w ∈ σ.workers) (hdone : w.isDone) (c : Counter) :
    returned? workflowId executionId c w = workerSum workflowId executionId c w ∧
      (workerSum workflowId executionId c w).isSome = decide (w.op = .increment c) := by
  obtain ⟨op, left, log⟩ := w
  match left with
  | .ok (.done result) =>
    cases op with
    | increment c' =>
      obtain ⟨sum, rfl, hstage⟩ := ((h.kept _ hw).done rfl).sum (h.sound _ hw)
      by_cases hc : c' = c
      · simp [returned?, workerSum, TrackStage.sumOf, hstage, hc, TrackStage.sum?]
      · simp [returned?, workerSum, TrackStage.sumOf, hc]
    | _ => simp [returned?, workerSum, TrackStage.sumOf]
  | .ok (.ask _ _) => cases hdone
  | .error _ => cases hdone

/-- Whatever operations run side by side on the record of an execution, once all are over and
    one of them has written, a lookup finds the record, if it lasts until then: with as many
    files as there were increments of each counter, with the status of the last update,
    pending if there was none, and with the total of the last creation, zero if there was
    none. The increments of a counter have given back the numbers from one on, each once. -/
theorem no_lost_increment (h : Runs workflowId executionId (fun _ => True) σ told)
    (hdone : ∀ w ∈ σ.workers, w.isDone) (hwrites : ∃ w ∈ σ.workers, w.op.Writes) :
    (∀ out p, (get workflowId executionId).Ends .never ⟨σ.shared, []⟩ out p →
      σ.shared.RecordLasts (Key.execution workflowId executionId) p.shared →
      ∃ r, out = .ok (.found r) ∧
        r.completedFiles = σ.workers.countP (fun w => w.op = .increment .completed) ∧
        r.failedFiles = σ.workers.countP (fun w => w.op = .increment .failed) ∧
        r.status = (recorded workflowId executionId told).status ∧
        r.totalFiles = (recorded workflowId executionId told).total) ∧
      ∀ c, (σ.workers.filterMap (returned? workflowId executionId c)).Perm
        (List.range' 1 (σ.workers.countP fun w => w.op = .increment c)) := by
  obtain ⟨f, record, hrecorded⟩ := h.recorded
  -- There are as many sums as increments, and as many as the counter says.
  have hcount : ∀ c, (recorded workflowId executionId told).counts c =
      σ.workers.countP fun w => w.op = .increment c := by
    intro c
    have hlength := (hrecorded.sums c).length_eq
    rw [List.length_range', List.length_filterMap_eq_countP] at hlength
    rw [← hlength]
    refine List.countP_congr fun w hw => ?_
    rw [(hrecorded.sum_of_increment hw (hdone w hw) c).2]
  refine ⟨fun out p hget hlasts => ?_, fun c => ?_⟩
  · obtain ⟨w, hw, hwrites⟩ := hwrites
    have hsome := hrecorded.isSome_of_writes hw (hdone w hw) hwrites
    obtain ⟨a, rfl, ⟨-, hgone⟩ | ⟨x, r, rfl, rfl, hsays⟩⟩ :=
      get_ends hrecorded.carries hrecorded.available hget
    · have hlive := (hlasts (hrecorded.carries.live.trans hsome)).1
      rw [hgone] at hlive
      cases hlive
    · have haccords : x = recorded workflowId executionId told := hrecorded.accords
      obtain ⟨hstatus, hcompleted, hfailed, htotal⟩ := hsays
      rw [haccords] at hstatus hcompleted hfailed htotal
      exact ⟨r, rfl, hcompleted.trans (hcount .completed), hfailed.trans (hcount .failed),
        hstatus, htotal⟩
  · rw [← hcount c]
    refine (List.Perm.of_eq (List.filterMap_congr fun w hw => ?_)).trans (hrecorded.sums c)
    exact (hrecorded.sum_of_increment hw (hdone w hw) c).1

/-- Two files are counted while the record is created and its status is updated, with a call of
    each operation in turn. -/
def inTurns : List (withDefaultTtls.repertoire "w" "e").Turn :=
  .start (.create 3) :: .start (.increment .completed) :: .start (.increment .completed) ::
    .start (.update (.canonical .executing)) ::
    (List.replicate 8 [.next 0, .next 1, .next 2, .next 3]).flatten

theorem no_lost_increment_in_turns :
    ∃ (σ : Scene (withDefaultTtls.repertoire "w" "e")) (told : _) (out : _) (p : Point),
      Runs "w" "e" (fun _ => True) σ told ∧ (∀ w ∈ σ.workers, w.isDone) ∧
      (get "w" "e").Ends .never ⟨σ.shared, []⟩ out p ∧
      (∃ r, out = .ok (.found r) ∧ r.completedFiles = 2 ∧ r.failedFiles = 0 ∧
        r.status = .executing ∧ r.totalFiles = 3) ∧
      (σ.workers.filterMap (returned? "w" "e" .completed)).Perm [1, 2] := by
  have hsmooth : Smooth "w" "e" (fun _ => True) ⟨{}, []⟩ inTurns := by decide +kernel
  have hchecks : (∀ w ∈ (Scene.after ⟨{}, []⟩ inTurns).workers, w.isDone) ∧
      (∃ w ∈ (Scene.after ⟨{}, []⟩ inTurns).workers, w.op = .create 3) ∧
      (Scene.after ⟨{}, []⟩ inTurns).shared.RecordLasts (Key.execution "w" "e")
        (lookUp "w" "e" (Scene.after ⟨{}, []⟩ inTurns).shared).2.shared ∧
      (∀ c, (Scene.after ⟨{}, []⟩ inTurns).workers.countP (fun w => w.op = .increment c) =
        if c = .completed then 2 else 0) := by
    refine ⟨by decide +kernel, by decide +kernel, by decide +kernel, ?_⟩
    rintro (_ | _) <;> decide +kernel
  have htold : (recorded "w" "e" (Scene.chronicle ⟨{}, []⟩ inTurns ++ [])).status = .executing ∧
      (recorded "w" "e" (Scene.chronicle ⟨{}, []⟩ inTurns ++ [])).total = 3 := by decide +kernel
  have hruns := (runs_empty withDefaultTtls "w" "e" fun _ => True).play hsmooth
  -- The last scene and the chronicle are not computed any further.
  generalize Scene.after ⟨{}, []⟩ inTurns = σ at hchecks hruns
  generalize Scene.chronicle ⟨{}, []⟩ inTurns ++ [] = told at htold hruns
  obtain ⟨hdone, ⟨w, hw, hcreate⟩, hlasts, hcounts⟩ := hchecks
  have hwrites : ∃ w ∈ σ.workers, w.op.Writes := ⟨w, hw, by rw [hcreate]; trivial⟩
  obtain ⟨hfound, hreturned⟩ := no_lost_increment hruns hdone hwrites
  have hget := lookUp_ends "w" "e" σ.shared
  obtain ⟨r, hr, hcompleted, hfailed, hstatus, htotal⟩ := hfound _ _ hget hlasts
  refine ⟨σ, told, _, _, hruns, hdone, hget, ⟨r, hr, ?_, ?_, ?_, ?_⟩, ?_⟩
  · rw [hcompleted, hcounts]
    rfl
  · rw [hfailed, hcounts]
    rfl
  · rw [hstatus, htold.1]
  · rw [htotal, htold.2]
  · have hperm := hreturned .completed
    rwa [hcounts] at hperm

/-- The only operation is an update with a text that names no status. -/
def refusedOnly : List (withDefaultTtls.repertoire "w" "e").Turn :=
  [.start (.update (.text "bogus"))]

/-- It is refused before the store is touched, so that there is no record. -/
theorem no_lost_increment_fails_after_refusal :
    ∃ (σ : Scene (withDefaultTtls.repertoire "w" "e")) (told : _) (p : Point),
      Runs "w" "e" (fun _ => True) σ told ∧ (∀ w ∈ σ.workers, w.isDone) ∧
      (∃ w ∈ σ.workers, w.op ≠ .delete) ∧
      (get "w" "e").Ends .never ⟨σ.shared, []⟩ (.ok .missing) p := by
  have hsmooth : Smooth "w" "e" (fun _ => True) ⟨{}, []⟩ refusedOnly := by decide +kernel
  have hchecks : (∀ w ∈ (Scene.after ⟨{}, []⟩ refusedOnly).workers, w.isDone) ∧
      (∃ w ∈ (Scene.after ⟨{}, []⟩ refusedOnly).workers, w.op ≠ .delete) ∧
      isMissing (lookUp "w" "e" (Scene.after ⟨{}, []⟩ refusedOnly).shared).1 := by
    decide +kernel
  have hruns := (runs_empty withDefaultTtls "w" "e" fun _ => True).play hsmooth
  generalize Scene.after ⟨{}, []⟩ refusedOnly = σ at hchecks hruns
  obtain ⟨hdone, hop, hmissing⟩ := hchecks
  have hget := lookUp_ends "w" "e" σ.shared
  generalize (lookUp "w" "e" σ.shared).1 = out at hget hmissing
  match out with
  | .ok .missing => exact ⟨σ, _, _, hruns, hdone, hop, hget⟩

end Tracker

end ExecutionControl
