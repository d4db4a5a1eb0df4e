import ExecutionControl.Proofs.Tracking.Scripts

/-! # How far an operation on a record has come

    An operation that starts a record does so with its first call, which writes a status if
    there is none; the calls that follow write the rest. In between it is midway: what it
    writes then makes no record that can be read unless the status is still there.
    `Tracker.endsAs` says which calls an operation makes at which stage, and that an
    increment gives back the sum that it was answered.
-/

namespace ExecutionControl

/-! ### Stages -/

/-- How far an operation has come. -/
inductive TrackStage where
  /-- Nothing is written yet. -/
  | fresh
  /-- The status was there, and there is more to write. An increment that was made had this
      sum. -/
  | midway (sum : Option Nat)
  /-- Everything is written. -/
  | written (sum : Option Nat)
  /-- A call has failed. -/
  | failed
  deriving DecidableEq

namespace TrackStage

/-- The sum of the increment that was made. -/
def sum? : TrackStage → Option Nat
  | .midway sum => sum
  | .written sum => sum
  | _ => none

/-- Whether there is more to write. -/
def isMidway : TrackStage → Bool
  | .midway _ => true
  | _ => false

/-- The stage after a request is answered. -/
def after (g : TrackStage) : (r : Request) → r.Reply → TrackStage
  | .coord _, .error _ => .failed
  | .coord (.setNewField ..), .ok _ => .midway g.sum?
  | .coord (.increment ..), .ok sum => .midway (some sum.toNat)
  | .coord (.setFields ..), .ok _ => .written g.sum?
  | .coord (.delete _), .ok _ => .written none
  | _, _ => g

open StatusRecord

/-- Which requests an operation may make. -/
inductive Permits (key : String) : TrackerOperation → TrackStage → Request → Prop
  | time {op : TrackerOperation} : Permits key op .fresh .time
  | seed {op : TrackerOperation} : Permits key op .fresh
      (.coord (.setNewField key statusField ExecutionStatus.pending.name))
  | startCounter {totalFiles : Nat} (c : Counter) : Permits key (.create totalFiles) (.midway none)
      (.coord (.setNewField key c.field "0"))
  | stamp {op : TrackerOperation} (now : String) : Permits key op (.midway none)
      (.coord (.setNewField key createdField now))
  | total {totalFiles : Nat} (now : String) : Permits key (.create totalFiles) (.midway none)
      (.coord (.setFields key [(totalField, toString totalFiles), (updatedField, now)]))
  | count (c : Counter) : Permits key (.increment c) (.midway none)
      (.coord (.increment key c.field 1))
  | touch {c : Counter} {sum : Nat} (now : String) :
      Permits key (.increment c) (.midway (some sum))
        (.coord (.setFields key [(updatedField, now)]))
  | mark {value : StatusValue} {status : ExecutionStatus} (hvalue : value.resolve = .ok status)
      (now : String) : Permits key (.update value) .fresh
        (.coord (.setFields key [(statusField, status.name), (updatedField, now)]))
  | look {op : TrackerOperation} {sum : Option Nat} : Permits key op (.written sum)
      (.coord (.getFields key))
  | expire {op : TrackerOperation} {sum : Option Nat} (ttl : Duration) :
      Permits key op (.written sum) (.coord (.expire key ttl))
  | delete : Permits key .delete .fresh (.coord (.delete key))

/-- At which stage an operation ends, and with what, if no call has failed: an operation that
    writes has written everything, and an increment gives back its sum. -/
def Ended : (op : TrackerOperation) → op.Result → TrackStage → Prop
  | _, _, .failed => True
  | .increment _, result, g => ∃ sum, result = .ok sum ∧ g = .written (some sum)
  | .create _, _, g => g = .written none
  | .update value, _, g => g = .written none ∨ g = .fresh ∧ ∃ e, value.resolve = .error e
  | .delete, _, g => g = .written none

variable {op : TrackerOperation} {g : TrackStage}

theorem Ended.ne_fresh {result : op.Result} (h : Ended op result g) (hwrites : op.Writes) :
    g ≠ .fresh := by
  rintro rfl
  cases op with
  | create totalFiles => cases h
  | update value =>
    rcases h with hwritten | ⟨-, e, he⟩
    · cases hwritten
    · obtain ⟨status, hstatus⟩ := hwrites
      rw [he] at hstatus
      cases hstatus
  | increment c =>
    obtain ⟨sum, -, hwritten⟩ := h
    cases hwritten
  | delete => exact hwrites

theorem Ended.sum {c : Counter} {result : Except TrackerError Nat}
    (h : Ended (.increment c) result g) (hsound : g ≠ .failed) :
    ∃ sum, result = .ok sum ∧ g = .written (some sum) := by
  cases g with
  | failed => exact absurd rfl hsound
  | _ => exact h

end TrackStage

/-! ### What the programs ask -/

/-- The stage of an operation at a cue of its script. -/
def Cue.stage : Cue → TrackStage
  | .start => .fresh
  | .timed _ => .fresh
  | .seeded .. => .midway none
  | .startedOne _ => .midway none
  | .startedBoth _ => .midway none
  | .stamped _ => .midway none
  | .counted _ sum => .midway (some sum)
  | .written sum => .written sum
  | .looked sum _ => .written (some sum)
  | .over sum => .written sum
  | .failed => .failed

/-- Where an operation ends, its stage is one at which it may. -/
theorem Cue.Ends.ended {op : TrackerOperation} {result : op.Result} {cue : Cue}
    (h : Cue.Ends op result cue) : TrackStage.Ended op result cue.stage := by
  cases h with
  | create => rfl
  | update => exact .inl rfl
  | refused hvalue => exact .inr ⟨rfl, _, hvalue⟩
  | increment => exact ⟨_, rfl, rfl⟩
  | delete => rfl
  | failed => trivial

namespace Tracker

variable {t : Tracker} {key : String} {op : TrackerOperation} {cue : Cue} {r : Request}
  {next : r.Reply → Cue}

/-- The requests of a script are permitted at its stages. -/
theorem Asks.permits (h : t.Asks key op cue r next) : TrackStage.Permits key op cue.stage r := by
  cases h with
  | time => exact .time
  | seed => exact .seed
  | startCompleted => exact .startCounter .completed
  | startFailed => exact .startCounter .failed
  | stamp | stampNew => exact .stamp _
  | total => exact .total _
  | count | countNew => exact .count _
  | touch => exact .touch _
  | look => exact .look
  | mark hvalue => exact .mark hvalue _
  | keepActive | keepMarked | keepCounted => exact .expire _
  | delete => exact .delete

/-- A reply leads to the stage of the next cue. -/
theorem Asks.stage (h : t.Asks key op cue r next) (reply : r.Reply) :
    (next reply).stage = cue.stage.after r reply := by
  cases h with
  | time => rfl
  | _ => cases reply <;> rfl

/-- The discipline of the operations on the record of an execution. -/
abbrev discipline (t : Tracker) (workflowId executionId : String) :
    Discipline (t.repertoire workflowId executionId) where
  Stage := TrackStage
  fresh := .fresh
  after _ g x := g.after x.request x.reply
  Permits := TrackStage.Permits (Key.execution workflowId executionId)

/-- Every operation keeps to the discipline, and ends when everything is written or a call has
    failed. -/
theorem endsAs (t : Tracker) (workflowId executionId : String) :
    (t.discipline workflowId executionId).EndsAs TrackStage.Ended :=
  endsAs_of_stages Cue.stage rfl (fun _ _ _ _ hasks => hasks.permits)
    (fun _ _ _ _ _ hasks => hasks.stage) fun _ _ _ hends => hends.ended

end Tracker

end ExecutionControl
