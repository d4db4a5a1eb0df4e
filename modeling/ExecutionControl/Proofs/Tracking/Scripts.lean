import ExecutionControl.Proofs.Interleaving
import ExecutionControl.Tracking.Tracker
import Mathlib.Algebra.Group.Nat.Defs

/-! # The scripts of a tracker

    Every operation that changes the live record of one execution, as data, and the requests
    that it makes, one after another. A `Cue` is a place in such a script, with what the
    operation has been told that matters for the rest; `Asks` says which request stands there
    and where its reply leads.

    The programs are walked through once, to see that they follow their scripts
    (`Tracker.follows`). Whatever else is said of how an operation goes on is said of the
    requests of a script, one by one, and carries over by `Program.ensures.of_following`.
-/

namespace ExecutionControl

/-! ### Operations -/

/-- A counter of files. -/
inductive Counter where
  | completed
  | failed
  deriving DecidableEq

/-- The field that holds a counter. -/
def Counter.field : Counter → String
  | .completed => StatusRecord.completedField
  | .failed => StatusRecord.failedField

theorem Counter.field_injective {c c' : Counter} (h : c.field = c'.field) : c = c' := by
  revert h
  cases c <;> cases c' <;> decide

theorem Counter.field_cases (c : Counter) :
    c.field = StatusRecord.completedField ∨ c.field = StatusRecord.failedField := by
  cases c with
  | completed => exact .inl rfl
  | failed => exact .inr rfl

/-- One operation on the live record of an execution. -/
inductive TrackerOperation where
  | create (totalFiles : Nat)
  | update (value : StatusValue)
  | increment (c : Counter)
  | delete
  deriving DecidableEq

namespace TrackerOperation

/-- What an operation gives back. -/
abbrev Result : TrackerOperation → Type
  | .create _ => Except TrackerError Unit
  | .update _ => Except TrackerError ExecutionStatus
  | .increment _ => Except TrackerError Nat
  | .delete => Except TrackerError Bool

/-- Whether an operation writes to the record. A deletion does not, and neither does an update
    with a text that names no status, which is refused. -/
def Writes : TrackerOperation → Prop
  | .update value => ∃ status, value.resolve = .ok status
  | .delete => False
  | _ => True

/-- Whether an operation starts a record that is not there. -/
def Starts : TrackerOperation → Prop
  | .create _ => True
  | .increment _ => True
  | _ => False

/-- Whether the number of files that an operation sets can be read back. -/
def Fits : TrackerOperation → Prop
  | .create totalFiles => totalFiles < 2 ^ 63
  | _ => True

instance : DecidablePred Fits
  | .create totalFiles => inferInstanceAs (Decidable (totalFiles < 2 ^ 63))
  | .update _ => .isTrue trivial
  | .increment _ => .isTrue trivial
  | .delete => .isTrue trivial

end TrackerOperation

/-- Whether what an operation gives back is no failure. -/
def TrackerOperation.isOk : (op : TrackerOperation) → op.Result → Bool
  | .create _, result => result.isOk
  | .update _, result => result.isOk
  | .increment _, result => result.isOk
  | .delete, result => result.isOk

/-- The program of an operation on the record of an execution. -/
def Tracker.program (t : Tracker) (workflowId executionId : String) :
    (op : TrackerOperation) → Program op.Result
  | .create totalFiles => t.create workflowId executionId totalFiles
  | .update value => t.updateStatus workflowId executionId value
  | .increment .completed => t.incrementCompleted workflowId executionId
  | .increment .failed => t.incrementFailed workflowId executionId
  | .delete => Tracker.delete workflowId executionId

/-- All operations on the record of an execution. -/
abbrev Tracker.repertoire (t : Tracker) (workflowId executionId : String) : Repertoire :=
  ⟨TrackerOperation, TrackerOperation.Result, t.program workflowId executionId⟩

/-! ### Scripts -/

/-- A place in the script of an operation. -/
inductive Cue where
  | start
  /-- The time was read. -/
  | timed (now : Timestamp)
  /-- There is a status now, which may be new. -/
  | seeded (now : Timestamp) (new : Bool)
  /-- There is a counter of completed files. -/
  | startedOne (now : Timestamp)
  /-- There are both counters. -/
  | startedBoth (now : Timestamp)
  /-- There is a time of creation. -/
  | stamped (now : Timestamp)
  /-- A counter was incremented, with this sum. -/
  | counted (now : Timestamp) (sum : Nat)
  /-- Everything is written. An increment that was made had this sum. -/
  | written (sum : Option Nat)
  /-- These fields were read after an increment. -/
  | looked (sum : Nat) (fields : Fields)
  /-- Nothing is left to ask. -/
  | over (sum : Option Nat)
  /-- A call has failed. -/
  | failed

/-- Where the answer of a call leads. -/
def Cue.orFailed {α : Type} (next : α → Cue) : Except CoordError α → Cue
  | .ok v => next v
  | .error _ => .failed

open StatusRecord

/-- Which request of an operation stands at a cue, and where its reply leads. -/
inductive Tracker.Asks (t : Tracker) (key : String) :
    TrackerOperation → Cue → (r : Request) → (r.Reply → Cue) → Prop
  | time {op : TrackerOperation} (hwrites : op.Writes) : Asks t key op .start .time .timed
  | seed {op : TrackerOperation} {now : Timestamp} (hstarts : op.Starts) :
      Asks t key op (.timed now)
        (.coord (.setNewField key statusField ExecutionStatus.pending.name))
        (Cue.orFailed (.seeded now))
  | startCompleted {totalFiles : Nat} {now : Timestamp} {new : Bool} :
      Asks t key (.create totalFiles) (.seeded now new)
        (.coord (.setNewField key completedField "0")) (Cue.orFailed fun _ => .startedOne now)
  | startFailed {totalFiles : Nat} {now : Timestamp} :
      Asks t key (.create totalFiles) (.startedOne now)
        (.coord (.setNewField key failedField "0")) (Cue.orFailed fun _ => .startedBoth now)
  | stamp {totalFiles : Nat} {now : Timestamp} :
      Asks t key (.create totalFiles) (.startedBoth now)
        (.coord (.setNewField key createdField now.offsetText))
        (Cue.orFailed fun _ => .stamped now)
  | total {totalFiles : Nat} {now : Timestamp} :
      Asks t key (.create totalFiles) (.stamped now)
        (.coord (.setFields key
          [(totalField, toString totalFiles), (updatedField, now.offsetText)]))
        (Cue.orFailed fun _ => .written none)
  | keepActive {totalFiles : Nat} : Asks t key (.create totalFiles) (.written none)
      (.coord (.expire key t.config.activeTtl)) (Cue.orFailed fun _ => .over none)
  | mark {value : StatusValue} {status : ExecutionStatus} {now : Timestamp}
      (hvalue : value.resolve = .ok status) :
      Asks t key (.update value) (.timed now)
        (.coord (.setFields key
          [(statusField, status.name), (updatedField, now.offsetText)]))
        (Cue.orFailed fun _ => .written none)
  | keepMarked {value : StatusValue} {status : ExecutionStatus}
      (hvalue : value.resolve = .ok status) :
      Asks t key (.update value) (.written none) (.coord (.expire key (t.config.ttl status)))
        (Cue.orFailed fun _ => .over none)
  | stampNew {c : Counter} {now : Timestamp} :
      Asks t key (.increment c) (.seeded now true)
        (.coord (.setNewField key createdField now.offsetText))
        (Cue.orFailed fun _ => .stamped now)
  | countNew {c : Counter} {now : Timestamp} :
      Asks t key (.increment c) (.stamped now) (.coord (.increment key c.field 1))
        (Cue.orFailed fun sum => .counted now sum.toNat)
  | count {c : Counter} {now : Timestamp} :
      Asks t key (.increment c) (.seeded now false) (.coord (.increment key c.field 1))
        (Cue.orFailed fun sum => .counted now sum.toNat)
  | touch {c : Counter} {now : Timestamp} {sum : Nat} :
      Asks t key (.increment c) (.counted now sum)
        (.coord (.setFields key [(updatedField, now.offsetText)]))
        (Cue.orFailed fun _ => .written (some sum))
  | look {c : Counter} {sum : Nat} : Asks t key (.increment c) (.written (some sum))
      (.coord (.getFields key)) (Cue.orFailed (.looked sum))
  | keepCounted {c : Counter} {sum : Nat} {fields : Fields} :
      Asks t key (.increment c) (.looked sum fields) (.coord (.expire key (t.ttlFor fields)))
        (Cue.orFailed fun _ => .over (some sum))
  | delete : Asks t key .delete .start (.coord (.delete key)) (Cue.orFailed fun _ => .over none)

/-- Where an operation ends, and with what. -/
inductive Cue.Ends : (op : TrackerOperation) → op.Result → Cue → Prop
  | create {totalFiles : Nat} : Ends (.create totalFiles) (.ok ()) (.over none)
  | update {value : StatusValue} {status : ExecutionStatus}
      (hvalue : value.resolve = .ok status) : Ends (.update value) (.ok status) (.over none)
  | refused {value : StatusValue} {e : InvalidStatusValue} (hvalue : value.resolve = .error e) :
      Ends (.update value) (.error (.invalidStatus e)) .start
  | increment {c : Counter} {sum : Nat} : Ends (.increment c) (.ok sum) (.over (some sum))
  | delete {existed : Bool} : Ends .delete (.ok existed) (.over none)
  | failed {op : TrackerOperation} {result : op.Result} (hfailed : op.isOk result = false) :
      Ends op result .failed

/-! ### What the programs ask -/

namespace Tracker

variable {t : Tracker} {key workflowId executionId : String} {op : TrackerOperation} {cue : Cue}

/-- A call that stands in the script fails or leads on. -/
theorem follows_call {call : CoordCall} {Q : call.Result → Cue → Prop}
    {E : CoordError → Cue → Prop} {next : call.Result → Cue}
    (hasks : t.Asks key op cue (.coord call) (Cue.orFailed next)) (hQ : ∀ v, Q v (next v))
    (hE : ∀ e, E e .failed) :
    Coord.ensures (following (t.Asks key op)) Q E (Coord.call call) cue := by
  rw [Coord.ensures_call]
  refine ⟨_, hasks, fun reply => ?_⟩
  cases reply with
  | ok v => exact hQ v
  | error e => exact hE e

/-- A program follows the script of an operation. -/
abbrev Follows (t : Tracker) (workflowId executionId : String) (op : TrackerOperation)
    (program : Program op.Result) : Prop :=
  program.ensures (following (t.Asks (Key.execution workflowId executionId) op)) (Cue.Ends op)
    .start

theorem follows_create {totalFiles : Nat} :
    t.Follows workflowId executionId (.create totalFiles)
      (t.create workflowId executionId totalFiles) := by
  simp only [Follows, create, tracked, Program.ensures_map, Program.ensures_run, Coord.ensures_bind,
    Coord.ensures_lift, Program.ensures_time]
  refine ⟨_, .time trivial, fun now => ?_⟩
  refine follows_call (.seed trivial) (fun new => ?_) fun _ => .failed rfl
  refine follows_call .startCompleted (fun _ => ?_) fun _ => .failed rfl
  refine follows_call .startFailed (fun _ => ?_) fun _ => .failed rfl
  refine follows_call .stamp (fun _ => ?_) fun _ => .failed rfl
  refine follows_call .total (fun _ => ?_) fun _ => .failed rfl
  exact follows_call .keepActive (fun _ => .create) fun _ => .failed rfl

theorem follows_update {value : StatusValue} :
    t.Follows workflowId executionId (.update value)
      (t.updateStatus workflowId executionId value) := by
  unfold Follows updateStatus
  cases hvalue : value.resolve with
  | error e => exact .refused hvalue
  | ok status =>
    simp only [tracked, writeStatus, Program.ensures_map, Program.ensures_run,
      Coord.ensures_bind, Coord.ensures_lift, Program.ensures_time]
    refine ⟨_, .time ⟨status, hvalue⟩, fun now => ?_⟩
    refine follows_call (.mark hvalue) (fun _ => ?_) fun _ => .failed rfl
    exact follows_call (.keepMarked hvalue) (fun _ => .update hvalue) fun _ => .failed rfl

/-- The part of an increment that follows once the status is there. -/
theorem follows_count {c : Counter} {now : Timestamp}
    (hcount : t.Asks (Key.execution workflowId executionId) (.increment c) cue
      (.coord (.increment (Key.execution workflowId executionId) c.field 1))
      (Cue.orFailed fun sum => .counted now sum.toNat)) :
    Coord.ensures (following (t.Asks (Key.execution workflowId executionId) (.increment c)))
      (fun sum => Cue.Ends (.increment c) (.ok sum))
      (fun e => Cue.Ends (.increment c) (.error (.coordination e))) (do
        let value ← Coord.call (.increment (Key.execution workflowId executionId) c.field 1)
        Coord.call
          (.setFields (Key.execution workflowId executionId) [(updatedField, now.offsetText)])
        let fields ← Coord.call (.getFields (Key.execution workflowId executionId))
        let _ ← Coord.call (.expire (Key.execution workflowId executionId) (t.ttlFor fields))
        return value.toNat) cue := by
  simp only [Coord.ensures_bind]
  refine follows_call hcount (fun value => ?_) fun _ => .failed rfl
  refine follows_call .touch (fun _ => ?_) fun _ => .failed rfl
  refine follows_call .look (fun fields => ?_) fun _ => .failed rfl
  exact follows_call .keepCounted (fun _ => .increment) fun _ => .failed rfl

theorem follows_increment {c : Counter} :
    t.Follows workflowId executionId (.increment c)
      (t.increment workflowId executionId c.field) := by
  simp only [Follows, increment, tracked, Program.ensures_map, Program.ensures_run,
    Coord.ensures_bind, Coord.ensures_lift, Program.ensures_time]
  refine ⟨_, .time trivial, fun now => ?_⟩
  refine follows_call (.seed trivial) (fun new => ?_) fun _ => .failed rfl
  cases new with
  | false => exact follows_count .count
  | true =>
    simp only [if_true, Coord.ensures_bind (Coord.call (.setNewField _ createdField _))]
    refine follows_call .stampNew (fun _ => ?_) fun _ => .failed rfl
    exact follows_count .countNew

theorem follows_delete :
    t.Follows workflowId executionId .delete (Tracker.delete workflowId executionId) := by
  simp only [Follows, delete, tracked, Program.ensures_map, Program.ensures_run]
  exact follows_call .delete (fun _ => .delete) fun _ => .failed rfl

/-- Every operation follows its script. -/
theorem follows (t : Tracker) (workflowId executionId : String) (op : TrackerOperation) :
    t.Follows workflowId executionId op (t.program workflowId executionId op) := by
  match op with
  | .create totalFiles => exact follows_create
  | .update value => exact follows_update
  | .increment .completed => exact follows_increment
  | .increment .failed => exact follows_increment
  | .delete => exact follows_delete

/-- Every operation keeps to a discipline whose stage is known at every cue of the scripts, if
    their requests are permitted there and their replies lead from one stage to the next. -/
theorem endsAs_of_stages {D : Discipline (t.repertoire workflowId executionId)}
    {Q : (op : TrackerOperation) → op.Result → D.Stage → Prop} (stage : Cue → D.Stage)
    (hfresh : stage .start = D.fresh)
    (hpermits : ∀ op cue r next, t.Asks (Key.execution workflowId executionId) op cue r next →
      D.Permits op (stage cue) r)
    (hafter : ∀ op cue r next time, t.Asks (Key.execution workflowId executionId) op cue r next →
      ∀ reply, stage (next reply) = D.after op (stage cue) ⟨time, r, reply⟩)
    (hends : ∀ op result cue, Cue.Ends op result cue → Q op result (stage cue)) :
    D.EndsAs Q := by
  intro op
  refine (t.follows workflowId executionId op).of_following (A := fun cue g => g = stage cue)
    hfresh.symm ?_ ?_
  · rintro cue r next g Q hasks rfl hQ
    exact ⟨hpermits op cue r next hasks, fun time reply =>
      hQ reply _ (hafter op cue r next time hasks reply).symm⟩
  · rintro result cue g hended rfl
    exact hends op result cue hended

end Tracker

end ExecutionControl
