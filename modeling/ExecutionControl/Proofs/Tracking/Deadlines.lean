import ExecutionControl.Proofs.Tracking.Isolation

/-! # How operations set deadlines

    Every operation on a record ends with the one call that settles when the record goes
    away: a deletion deletes it, all others give it a deadline. Nothing is asked after that
    call, and an operation succeeds if and only if it has come that far (`settles`). Which
    time to live is asked for depends on the operation and, for an increment, on the fields
    that it has just read (`Grants`).

    `Calls` are operations one after another, each of which runs alone.
-/

namespace ExecutionControl

/-! ### Outcomes -/

/-- An operation that has ended, on the record of an execution. -/
structure TrackerCall where
  workflowId : String
  executionId : String
  op : TrackerOperation
  before : Shared
  outcome : Checked op.Result
  after : Shared

namespace TrackerCall

/-- The key of the record. -/
def key (c : TrackerCall) : String := Key.execution c.workflowId c.executionId

/-- Whether the operation ended without a failure and without an overflow. -/
def Succeeded (c : TrackerCall) : Prop := ∃ result, c.outcome = .ok result ∧ c.op.isOk result

end TrackerCall

/-- Operations one after another, the latest first, and the state that they lead to. Time may
    pass between two of them. -/
inductive Tracker.Calls (t : Tracker) (F : Faults) (s₀ : Shared) :
    List TrackerCall → Shared → Prop
  | start : Calls t F s₀ [] s₀
  | wait {calls : List TrackerCall} {s : Shared} {time : Moment} (h : Calls t F s₀ calls s)
      (htime : s.now ≤ time) : Calls t F s₀ calls (s.wait time)
  | call {calls : List TrackerCall} (c : TrackerCall) {log : Log}
      (h : Calls t F s₀ calls c.before)
      (hends : (t.program c.workflowId c.executionId c.op).Ends F ⟨c.before, []⟩ c.outcome
        ⟨c.after, log⟩) : Calls t F s₀ (c :: calls) c.after

/-- An operation of a tracker with the default times to live, on a store that never fails,
    answered without delay. -/
def TrackerCall.operate (workflowId executionId : String) (op : TrackerOperation) (s : Shared) :
    TrackerCall :=
  ⟨workflowId, executionId, op, s, (Tracker.operate workflowId executionId op s).1,
    (Tracker.operate workflowId executionId op s).2.shared⟩

theorem Tracker.Calls.operate {s₀ s : Shared} {calls : List TrackerCall}
    (h : withDefaultTtls.Calls .never s₀ calls s) (workflowId executionId : String)
    (op : TrackerOperation) :
    withDefaultTtls.Calls .never s₀ (.operate workflowId executionId op s :: calls)
      (TrackerCall.operate workflowId executionId op s).after :=
  .call _ h (operate_ends workflowId executionId op s)

/-- An operation leaves everything alone that is not under the key of its execution. -/
theorem Tracker.entries_of_ne {t : Tracker} {F : Faults} {workflowId executionId key : String}
    {op : TrackerOperation} {s : Shared} {out : Checked op.Result} {p : Point}
    (hends : (t.program workflowId executionId op).Ends F ⟨s, []⟩ out p)
    (hkey : key ≠ Key.execution workflowId executionId) :
    p.shared.coord.entries[key]? = s.coord.entries[key]? :=
  hends.keeps (I := fun q => q.coord.entries[key]? = s.coord.entries[key]?)
    (program_spares t op hkey) (fun _ _ _ _ h hr hs => (hs.entries_of_spares hr).trans h) rfl

/-! ### Stages -/

/-- Whether an operation has settled when its record goes away. -/
inductive DateStage where
  /-- Not yet. These fields were read, if any were. -/
  | unsettled (read : Option Fields)
  /-- The record has its deadline or is deleted. -/
  | settled
  /-- A call has failed. -/
  | failed

/-- The time to live that an operation asks for, when it has read these fields. -/
def Tracker.Grants (t : Tracker) : TrackerOperation → Option Fields → Duration → Prop
  | .create _, _, ttl => ttl = t.config.activeTtl
  | .update value, _, ttl => ∃ status, value.resolve = .ok status ∧ ttl = t.config.ttl status
  | .increment _, read, ttl => ∃ fields, read = some fields ∧ ttl = t.ttlFor fields
  | .delete, _, _ => False

namespace DateStage

/-- The stage after a request is answered. -/
def after : DateStage → (r : Request) → r.Reply → DateStage
  | _, .coord _, .error _ => .failed
  | _, .coord (.getFields _), .ok fields => .unsettled (some fields)
  | _, .coord (.expire ..), .ok _ => .settled
  | _, .coord (.delete _), .ok _ => .settled
  | g, _, _ => g

/-- Which requests an operation may make: none once it is settled or has failed, and for a
    deadline only with the time to live that it grants. -/
def Permits (t : Tracker) (op : TrackerOperation) : DateStage → Request → Prop
  | .unsettled read, r => ∀ key ttl, r = .coord (.expire key ttl) → t.Grants op read ttl
  | _, _ => False

theorem permits_other {t : Tracker} {op : TrackerOperation} {read : Option Fields} {r : Request}
    (h : ∀ key ttl, r ≠ .coord (.expire key ttl)) : Permits t op (.unsettled read) r :=
  fun key ttl hr => absurd hr (h key ttl)

/-- At which stage an operation ends, and with what: it succeeds if it has settled its record,
    and one that writes ends settled or has failed. -/
def Ended (op : TrackerOperation) (result : op.Result) : DateStage → Prop
  | .settled => op.isOk result = true
  | .failed => op.isOk result = false
  | .unsettled _ => op.isOk result = false ∧ ¬ op.Writes

end DateStage

/-- How far an operation has come with its deadline at a cue of its script. -/
def Cue.dating : Cue → DateStage
  | .looked _ fields => .unsettled (some fields)
  | .over _ => .settled
  | .failed => .failed
  | _ => .unsettled none

/-- Where an operation ends, it has settled its record if it succeeds. -/
theorem Cue.Ends.dated {op : TrackerOperation} {result : op.Result} {cue : Cue}
    (h : Cue.Ends op result cue) : DateStage.Ended op result cue.dating := by
  cases h with
  | create | update | increment | delete => rfl
  | refused hvalue =>
    refine ⟨rfl, ?_⟩
    rintro ⟨status, hstatus⟩
    rw [hvalue] at hstatus
    cases hstatus
  | failed hfailed => exact hfailed

namespace Tracker

variable {t : Tracker} {workflowId executionId key : String} {op : TrackerOperation} {cue : Cue}
  {r : Request} {next : r.Reply → Cue}

/-- The discipline of when operations set deadlines. -/
abbrev dating (t : Tracker) (workflowId executionId : String) :
    Discipline (t.repertoire workflowId executionId) where
  Stage := DateStage
  fresh := .unsettled none
  after _ g x := g.after x.request x.reply
  Permits := DateStage.Permits t

/-! ### What the programs ask -/

/-- Nothing is asked after the last call, which asks for the time to live that is granted. -/
theorem Asks.permits_dating (h : t.Asks key op cue r next) :
    DateStage.Permits t op cue.dating r := by
  cases h with
  | keepActive =>
    rintro _ ttl ⟨⟩
    rfl
  | keepMarked hvalue =>
    rintro _ ttl ⟨⟩
    exact ⟨_, hvalue, rfl⟩
  | keepCounted =>
    rintro _ ttl ⟨⟩
    exact ⟨_, rfl, rfl⟩
  | _ => exact DateStage.permits_other (by simp)

theorem Asks.dating (h : t.Asks key op cue r next) (reply : r.Reply) :
    (next reply).dating = cue.dating.after r reply := by
  cases h with
  | time => rfl
  | _ => cases reply <;> rfl

/-- Every operation settles its record with its last call, or fails. -/
theorem dates (t : Tracker) (workflowId executionId : String) :
    (t.dating workflowId executionId).EndsAs DateStage.Ended :=
  endsAs_of_stages Cue.dating rfl (fun _ _ _ _ hasks => hasks.permits_dating)
    (fun _ _ _ _ _ hasks => hasks.dating) fun _ _ _ hends => hends.dated

/-- What is kept of an operation, and how far it has come with its deadline. -/
abbrev course (t : Tracker) (workflowId executionId : String) :
    Discipline (t.repertoire workflowId executionId) :=
  (t.discipline workflowId executionId).both (t.dating workflowId executionId)

theorem course_endsAs (t : Tracker) (workflowId executionId : String) :
    (t.course workflowId executionId).EndsAs fun op result g =>
      TrackStage.Ended op result g.1 ∧ DateStage.Ended op result g.2 :=
  (endsAs t workflowId executionId).both (dates t workflowId executionId)

end Tracker

end ExecutionControl
