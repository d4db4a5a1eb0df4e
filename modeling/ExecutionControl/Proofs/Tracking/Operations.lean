import ExecutionControl.Lifecycle
import ExecutionControl.Proofs.HashChanges
import ExecutionControl.Proofs.Tracking.Scripts

/-! # The operations on files

    Every operation that registers, moves or finishes a file, and every one that changes the
    live record of an execution, as data.

    An operation that finishes a file owes a count from the moment its record moves until the
    counter is incremented, or until a call fails and the count is given up. `files_endsAs`
    says that a counter is incremented only where a count is owed, that every other request
    spares the counters, and that no operation ends while it owes a count.
-/

namespace ExecutionControl

/-- One operation on files or on the live record of an execution. -/
inductive FileOperation where
  | register (file : NewFile)
  | advance (id : String) (target : ExecutionStatus)
  | record (c : ExecutionContext) (id : String) (outcome : FileOutcome)
  | track (workflowId executionId : String) (totalFiles : Nat)
  | mark (workflowId executionId : String) (value : StatusValue)
  | forget (workflowId executionId : String)

/-- The field that counts the files that end in a status; not every status has one. -/
def ExecutionStatus.counter? : ExecutionStatus → Option String
  | .completed => some StatusRecord.completedField
  | .error => some StatusRecord.failedField
  | _ => none

theorem ExecutionStatus.isTerminal_of_counter? {status : ExecutionStatus} {field : String}
    (h : status.counter? = some field) : status.isTerminal := by
  cases status <;> first | rfl | cases h

theorem ExecutionStatus.counter?_injective {status status' : ExecutionStatus} {field : String}
    (h : status.counter? = some field) (h' : status'.counter? = some field) :
    status = status' := by
  cases status <;> cases status' <;> cases h <;> first | rfl | (revert h'; decide)

namespace FileOperation

/-- What an operation gives back. -/
abbrev Result : FileOperation → Type
  | .register _ => Except StoreError FileRecord
  | .advance .. => Except StoreError FileRecord
  | .record .. => Except StoreError FileRecord
  | .track .. => Except TrackerError Unit
  | .mark .. => Except TrackerError ExecutionStatus
  | .forget .. => Except TrackerError Bool

/-- The key of the live record that an operation changes. -/
def statusKey? : FileOperation → Option String
  | .record c _ _ => some (Key.execution c.workflowId c.executionId)
  | .track workflowId executionId _ => some (Key.execution workflowId executionId)
  | .mark workflowId executionId _ => some (Key.execution workflowId executionId)
  | .forget workflowId executionId => some (Key.execution workflowId executionId)
  | _ => none

/-- The counter that an operation increments if it moves the record of a file. -/
def counter? : FileOperation → Option String
  | .record _ _ outcome => outcome.status.counter?
  | _ => none

end FileOperation

/-- The program of an operation. -/
def Lifecycle.fileProgram (l : Lifecycle) : (op : FileOperation) → Program op.Result
  | .register file => Lifecycle.registerFile file
  | .advance id target => Lifecycle.advanceFile id target
  | .record c id outcome => l.recordFile c id outcome
  | .track workflowId executionId totalFiles =>
    l.tracker.create workflowId executionId totalFiles
  | .mark workflowId executionId value => l.tracker.updateStatus workflowId executionId value
  | .forget workflowId executionId => Tracker.delete workflowId executionId

/-- All operations on files. -/
abbrev Lifecycle.fileRepertoire (l : Lifecycle) : Repertoire :=
  ⟨FileOperation, FileOperation.Result, l.fileProgram⟩

/-! ### Stages -/

/-- How far an operation has come that finishes a file. -/
inductive CountStage where
  /-- No record has moved. -/
  | fresh
  /-- The record has moved and is not counted yet. -/
  | owing
  /-- There is nothing to count any more. -/
  | settled
  deriving DecidableEq

namespace CountStage

/-- The stage after a request is answered. -/
def after (op : FileOperation) (g : CountStage) : Exchange → CountStage
  | ⟨_, .files (.transition ..), .ok (_, true)⟩ => if op.counter?.isSome then .owing else .settled
  | ⟨_, .files (.transition ..), _⟩ => .settled
  | ⟨_, .coord (.increment ..), _⟩ => .settled
  | ⟨_, .coord _, .error _⟩ => .settled
  | _ => g

/-- Whether a call is one that changes no counter, unless it starts one at zero. -/
def SparesCounters : CoordCall → Prop
  | .setFields _ fields => ∀ p ∈ fields, ∀ status, ExecutionStatus.counter? status ≠ some p.1
  | .setNewField _ field value =>
    ∀ status, ExecutionStatus.counter? status = some field → value = toString 0
  | .getFields _ => True
  | .expire .. => True
  | .delete _ => True
  | _ => False

/-- Which requests an operation may make. -/
def Permits (op : FileOperation) (g : CountStage) : Request → Prop
  | .files (.createOrGet _) => True
  | .files (.transition id target _ _) => g = .fresh ∧
      (op = .advance id target ∨ ∃ c outcome, op = .record c id outcome ∧ target = outcome.status)
  | .files _ => False
  | .coord (.increment key field delta) => g = .owing ∧ op.statusKey? = some key ∧
      op.counter? = some field ∧ delta = 1
  | .coord call => SparesCounters call ∧ op.statusKey? = some call.subject
  | .time => True
  | .report _ => True
  | _ => False

end CountStage

/-! ### What the programs ask -/

/-- Whether an operation of the tracker counts. -/
def TrackerOperation.counts : TrackerOperation → Bool
  | .increment _ => true
  | _ => false

/-- Whether an operation of the tracker still has to count at a cue of its script. -/
def Cue.owes (op : TrackerOperation) : Cue → Bool
  | .start => op.counts
  | .timed _ => op.counts
  | .seeded .. => op.counts
  | .stamped _ => op.counts
  | _ => false

namespace Lifecycle

/-- The discipline of the operations on files. -/
abbrev fileDiscipline (l : Lifecycle) : Discipline l.fileRepertoire where
  Stage := CountStage
  fresh := .fresh
  after := CountStage.after
  Permits := CountStage.Permits

open StatusRecord

variable {l : Lifecycle} {op : FileOperation} {tracked : TrackerOperation} {g : CountStage}
  {key workflowId executionId : String} {c : ExecutionContext} {id : String}
  {outcome : FileOutcome} {cue : Cue} {r : Request} {next : r.Reply → Cue}

/-- Fields that are set along with a counter are not counters. -/
theorem counter?_ne {field : String} (h : field ≠ completedField ∧ field ≠ failedField)
    (status : ExecutionStatus) : status.counter? ≠ some field := by
  obtain ⟨hcompleted, hfailed⟩ := h
  cases status <;> simp [ExecutionStatus.counter?, hcompleted.symm, hfailed.symm]

theorem spares_setNewField {field value : String}
    (h : field ≠ completedField ∧ field ≠ failedField) :
    CountStage.SparesCounters (.setNewField key field value) :=
  fun status hstatus => absurd hstatus (counter?_ne h status)

theorem spares_setFields {fields : List (String × String)}
    (h : ∀ p ∈ fields, p.1 ≠ completedField ∧ p.1 ≠ failedField) :
    CountStage.SparesCounters (.setFields key fields) :=
  fun p hp => counter?_ne (h p hp)

/-- What the tracker asks is permitted. -/
theorem permits_of_asks (hasks : l.tracker.Asks key tracked cue r next)
    (hkey : op.statusKey? = some key)
    (hcounter : ∀ c, tracked = .increment c → op.counter? = some c.field)
    (hg : g = .owing ↔ cue.owes tracked = true) : CountStage.Permits op g r := by
  cases hasks with
  | time => trivial
  | count | countNew => exact ⟨hg.mpr rfl, hkey, hcounter _ rfl, rfl⟩
  | startCompleted | startFailed => exact ⟨fun _ _ => rfl, hkey⟩
  | seed | stamp | stampNew => exact ⟨spares_setNewField (by decide), hkey⟩
  | total | touch | mark =>
    refine ⟨spares_setFields ?_, hkey⟩
    simp [totalField, statusField, updatedField, completedField, failedField]
  | look | keepActive | keepMarked | keepCounted | delete => exact ⟨trivial, hkey⟩

/-- A count is owed for as long as the script has it ahead. -/
theorem owing_of_asks (hasks : l.tracker.Asks key tracked cue r next)
    (hg : g = .owing ↔ cue.owes tracked = true) (time : Moment) (reply : r.Reply) :
    CountStage.after op g ⟨time, r, reply⟩ = .owing ↔ (next reply).owes tracked = true := by
  cases hasks with
  | time => exact hg
  | count | countNew => cases reply <;> exact ⟨nofun, nofun⟩
  | _ =>
    cases reply with
    | ok v => exact hg
    | error e => exact ⟨nofun, nofun⟩

/-- An operation of the tracker that counts if and only if a count is owed, and then in the
    counter in which it is owed. -/
theorem keeps_tracked (tracked : TrackerOperation) {Q : tracked.Result → CountStage → Prop}
    (hkey : op.statusKey? = some (Key.execution workflowId executionId))
    (hcounter : ∀ c, tracked = .increment c → op.counter? = some c.field)
    (hg : g = .owing ↔ tracked.counts = true) (hQ : ∀ result g, g ≠ .owing → Q result g) :
    (l.tracker.program workflowId executionId tracked).ensures (l.fileDiscipline.terms op) Q
      g := by
  refine (l.tracker.follows workflowId executionId tracked).of_following
    (A := fun cue g => g = .owing ↔ cue.owes tracked = true) hg ?_ ?_
  · intro cue r next g Q hasks hg hQ
    exact ⟨permits_of_asks hasks hkey hcounter hg, fun time reply =>
      hQ reply _ (owing_of_asks hasks hg time reply)⟩
  · intro result cue g hends hg
    refine hQ result g fun howing => ?_
    have howes := hg.mp howing
    cases hends <;> cases howes

/-- A file that has moved is counted if its status has a counter. -/
theorem keeps_countFile {Q : Except TrackerError Unit → CountStage → Prop}
    (hQ : ∀ r g, g ≠ .owing → Q r g) :
    (l.countFile c outcome.status).ensures (l.fileDiscipline.terms (.record c id outcome)) Q
      (if outcome.status.counter?.isSome then .owing else .settled) := by
  have hcounter : ∀ counted counter, TrackerOperation.increment counted = .increment counter →
      some counted.field = some counter.field := by
    rintro counted _ ⟨⟩
    rfl
  cases outcome with
  | completed executionTime =>
    simp only [countFile, FileOutcome.status, Program.ensures_map]
    exact keeps_tracked (.increment .completed) rfl (hcounter _) ⟨fun _ => rfl, fun _ => rfl⟩
      fun r => hQ _
  | failed error executionTime =>
    simp only [countFile, FileOutcome.status, Program.ensures_map]
    exact keeps_tracked (.increment .failed) rfl (hcounter _) ⟨fun _ => rfl, fun _ => rfl⟩
      fun r => hQ _
  | stopped => exact hQ _ _ nofun

theorem keeps_recordFile :
    (l.recordFile c id outcome).ensures (l.fileDiscipline.terms (.record c id outcome))
      (fun _ g => g ≠ .owing) .fresh := by
  simp only [recordFile, Program.ensures_bind, Program.ensures_files]
  refine ⟨⟨rfl, .inr ⟨c, outcome, rfl, rfl⟩⟩, fun t reply => ?_⟩
  match reply with
  | .error e => exact nofun
  | .ok (r, false) => exact nofun
  | .ok (r, true) =>
    simp only [if_true, Program.ensures_bind]
    refine keeps_countFile fun counted g hg => ?_
    cases counted with
    | ok _ => exact hg
    | error e => exact ⟨trivial, fun _ _ => hg⟩

/-- Every operation on files keeps to the discipline, and owes no count when it is over. -/
theorem files_endsAs : l.fileDiscipline.EndsAs fun _ _ g => g ≠ .owing := by
  intro op
  cases op with
  | register file =>
    simp only [fileProgram, registerFile, Program.ensures_map, Program.ensures_files]
    exact ⟨trivial, fun _ _ => nofun⟩
  | advance id target =>
    simp only [fileProgram, advanceFile, Program.ensures_map, Program.ensures_files]
    refine ⟨⟨rfl, .inl rfl⟩, fun t reply => ?_⟩
    -- Nothing is counted of a file that is not finished.
    match reply with
    | .error e => exact nofun
    | .ok (r, false) => exact nofun
    | .ok (r, true) => exact nofun
  | record c id outcome => exact keeps_recordFile
  | track workflowId executionId totalFiles =>
    exact keeps_tracked (.create totalFiles) rfl nofun ⟨nofun, nofun⟩ fun _ _ h => h
  | mark workflowId executionId value =>
    exact keeps_tracked (.update value) rfl nofun ⟨nofun, nofun⟩ fun _ _ h => h
  | forget workflowId executionId =>
    exact keeps_tracked .delete rfl nofun ⟨nofun, nofun⟩ fun _ _ h => h

end Lifecycle

end ExecutionControl
