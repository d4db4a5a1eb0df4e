import ExecutionControl.Proofs.FileChanges
import ExecutionControl.Proofs.Schedules
import ExecutionControl.Proofs.Tracking.Operations

/-! # Counters beside the durable records

    The live counters of an execution never overtake its durable records: whatever runs side
    by side, whichever calls fail and whatever becomes of the live record, a counter has at
    most the number of the records in its status; and it has that number when every
    operation that finishes a file is over, no call to the coordination store has failed and
    the live record has neither expired nor been deleted (`counters_bounded`).

    The invariant is a balance (`Tally`): the number that a counter has, the counts that
    operations still owe, and the counts that were lost make up the number of the records. A
    count is lost when a call fails that an operation needs to make its increment, and when
    the live record goes.
-/

namespace ExecutionControl

/-- The live record under a key, if there is one, lasts until the next step and beyond. -/
def Shared.RecordLasts (key : String) (s s' : Shared) : Prop :=
  (s.coord.live? s.now key).isSome →
    (s.coord.live? s'.now key).isSome ∧ (s'.coord.live? s'.now key).isSome

instance (key : String) (s s' : Shared) : Decidable (s.RecordLasts key s') := by
  unfold Shared.RecordLasts
  infer_instance

/-- The counter in a field of the live record of an execution, zero if there is none. -/
def Shared.tracked (s : Shared) (workflowId executionId field : String) :
    Except CoordError Nat := do
  let fields ← s.coord.hash s.now (Key.execution workflowId executionId)
  StatusRecord.readCounter fields (Key.execution workflowId executionId) field

namespace Lifecycle

section Runs

variable (workflowId executionId : String)

/-- What is taken for granted of an operation. A file is finished in the context of its own
    execution; the execution in question has one workflow, and the key of its live record is
    that of no other execution. A file is not moved to a terminal status otherwise. -/
def Proper (s : Shared) : FileOperation → Prop
  | .record c id _ =>
    (∀ r ∈ s.files.get id, r.executionId = c.executionId) ∧
      (c.executionId = executionId → c.workflowId = workflowId) ∧
      (Key.execution c.workflowId c.executionId = Key.execution workflowId executionId →
        c.executionId = executionId)
  | .advance _ target => target.isTerminal = false
  | _ => True

instance (s : Shared) (op : FileOperation) : Decidable (Proper workflowId executionId s op) := by
  cases op <;> unfold Proper <;> infer_instance

/-- The scenes that operations on files reach from empty stores. If `lasting` holds, the live
    record of the execution neither expires nor is deleted on the way. -/
inductive FileRuns (l : Lifecycle) (F : Faults) (lasting : Prop) : Scene l.fileRepertoire → Prop
  | start {s : Shared} (hcoord : s.coord.entries = ∅) (hfiles : s.files = {}) :
      FileRuns l F lasting ⟨s, []⟩
  | step {σ σ' : Scene l.fileRepertoire} (h : FileRuns l F lasting σ) (hstep : σ.Step F σ')
      (hproper : ∀ w ∈ σ'.workers, Proper workflowId executionId σ'.shared w.op)
      (hlasts : lasting →
        σ.shared.RecordLasts (Key.execution workflowId executionId) σ'.shared) :
      FileRuns l F lasting σ'

/-- Whether an operation owes a count of a file of the execution in a status. -/
def Owes (status : ExecutionStatus) : FileOperation → CountStage → Bool
  | .record c _ outcome, .owing => c.executionId == executionId && outcome.status == status
  | _, _ => false

/-- Whether a worker owes a count. -/
def WorkerOwes {l : Lifecycle} (status : ExecutionStatus) (w : Worker l.fileRepertoire) : Bool :=
  Owes executionId status w.op (l.fileDiscipline.stageOf w)

/-- How many counts are owed. -/
def owed {l : Lifecycle} (status : ExecutionStatus) (σ : Scene l.fileRepertoire) : Nat :=
  σ.workers.countP (WorkerOwes executionId status)

/-- A counter has the number `n` in a scene where `lost` counts were lost. -/
structure Tally {l : Lifecycle} (status : ExecutionStatus) (field : String)
    (σ : Scene l.fileRepertoire) (n lost : Nat) : Prop where
  reads : σ.shared.coord.Reads σ.shared.now (Key.execution workflowId executionId) field n
  balance : n + owed executionId status σ + lost =
    σ.shared.files.countByStatus executionId status

end Runs

variable {l : Lifecycle} {workflowId executionId field : String} {status : ExecutionStatus}
  {F : Faults} {lasting : Prop} {s s' : Shared} {r : Request} {n : Nat}
  {σ σ' : Scene l.fileRepertoire}

/-! ### The counter -/

/-- A counter that time passes over keeps its number if the hash lasts. -/
theorem reads_later {coord : CoordStore} {now later : Moment} {key : String}
    (h : coord.Reads now key field n) (hlater : now ≤ later) :
    ∃ n', coord.Reads later key field n' ∧ n' ≤ n ∧
      (((coord.live? now key).isSome → (coord.live? later key).isSome) → n' = n) := by
  rcases h.at_later hlater with hsame | ⟨hzero, hgone⟩
  · exact ⟨n, hsame, Nat.le_refl _, fun _ => rfl⟩
  · refine ⟨0, hzero, Nat.zero_le _, fun hlasts => ?_⟩
    rcases Nat.eq_zero_or_pos n with hzero | hpos
    · exact hzero.symm
    · have hlive := hlasts (h.live?_isSome (Nat.ne_of_gt hpos))
      rw [hgone] at hlive
      cases hlive

/-- A request that spares a counter. -/
theorem reads_spared {key : String} {reply : r.Reply} (hs : s.Serves F r (.ok reply) s')
    (hr : ∀ call, r = .coord call → call.Spares key field)
    (h : s.coord.Reads s.now key field n) :
    ∃ n', s'.coord.Reads s'.now key field n' ∧ n' ≤ n ∧ (s.RecordLasts key s' → n' = n) := by
  obtain ⟨n₁, hreads, hle, hsame⟩ := reads_later h hs.now_le
  have hlasts : s.RecordLasts key s' → n₁ = n := fun hlasts => hsame fun hlive => (hlasts hlive).1
  by_cases hcoord : ∃ call, r = .coord call
  · obtain ⟨call, rfl⟩ := hcoord
    rcases hs.answered with hp | ⟨-, hcoord⟩
    · rcases hreads.spared (hr call rfl) hp with hkept | ⟨hzero, hgone⟩
      · exact ⟨n₁, hkept, hle, hlasts⟩
      · refine ⟨0, hzero, Nat.zero_le _, fun hrecord => ?_⟩
        rcases Nat.eq_zero_or_pos n with hzero | hpos
        · exact hzero.symm
        · have hlive := (hrecord (h.live?_isSome (Nat.ne_of_gt hpos))).2
          rw [hgone] at hlive
          cases hlive
    · rw [hcoord]
      exact ⟨n₁, hreads, hle, hlasts⟩
  · rw [hs.coord_eq fun call heq => hcoord ⟨call, heq⟩]
    exact ⟨n₁, hreads, hle, hlasts⟩

/-- Calls to the coordination store do not fail. -/
def Healthy (F : Faults) (s : Shared) : Prop :=
  (∀ call e, ¬ F.coord call e) ∧ s.coord.available = true

/-- An increment adds one to its counter, or the store is not healthy. -/
theorem reads_increment {key : String} {reply : Except CoordError Int}
    (hs : s.Serves F (.coord (.increment key field 1)) (.ok reply) s')
    (h : s.coord.Reads s.now key field n) :
    ∃ n', n' ≤ n ∧ (s.RecordLasts key s' → n' = n) ∧
      (s'.coord.Reads s'.now key field (n' + 1) ∨
        ¬ Healthy F s ∧ s'.coord.Reads s'.now key field n') := by
  obtain ⟨n₁, hreads, hle, hsame⟩ := reads_later h hs.now_le
  refine ⟨n₁, hle, fun hlasts => hsame fun hlive => (hlasts hlive).1, ?_⟩
  rcases hs.answered with hp | ⟨⟨e, he, -⟩, hcoord⟩
  · rcases hreads.increment hp with ⟨-, hunavailable, hcoord⟩ | ⟨-, hnext⟩
    · rw [hcoord]
      exact .inr ⟨fun hhealthy => by simp [hhealthy.2] at hunavailable, hreads⟩
    · exact .inl hnext
  · rw [hcoord]
    exact .inr ⟨fun hhealthy => hhealthy.1 _ e he, hreads⟩

/-! ### One request -/

/-- What a request does to the balance of a counter: `R` says which numbers the counter has
    after it, `owed` and `owed'` whether the operation owes a count before and after, and
    `count` and `count'` how many records there are in the status. -/
inductive CountEffect (healthy : Prop) (R : Nat → Prop) (n : Nat) (owed owed' : Bool)
    (count count' : Nat) : Prop
  | quiet (hR : R n) (howed : owed' = owed) (hcount : count' = count)
  /-- A record has moved to the status. -/
  | moved (hR : R n) (howed : owed = false) (howed' : owed' = true) (hcount : count' = count + 1)
  /-- The counter was incremented. -/
  | counted (hR : R (n + 1)) (howed : owed = true) (howed' : owed' = false)
      (hcount : count' = count)
  /-- A call has failed, and the count is given up. -/
  | givenUp (hfailed : ¬ healthy) (hR : R n) (howed : owed = true) (howed' : owed' = false)
      (hcount : count' = count)

/-- A request by an operation from one stage to another keeps the balance of the counter, which
    had the number `n` before. -/
def Balances (workflowId executionId : String) (status : ExecutionStatus) (field : String)
    (F : Faults) (n : Nat) (s s' : Shared) (op : FileOperation) (g g' : CountStage) : Prop :=
  ∃ n', n' ≤ n ∧ (s.RecordLasts (Key.execution workflowId executionId) s' → n' = n) ∧
    CountEffect (Healthy F s)
      (s'.coord.Reads s'.now (Key.execution workflowId executionId) field) n'
      (Owes executionId status op g) (Owes executionId status op g')
      (s.files.countByStatus executionId status) (s'.files.countByStatus executionId status)

variable {op : FileOperation} {g : CountStage}

/-- Only an operation that has moved a record owes a count. -/
theorem owes_eq_false (h : g ≠ .owing) : Owes executionId status op g = false := by
  cases op <;> cases g <;> first | rfl | exact absurd rfl h

theorem owes_fresh : Owes executionId status op .fresh = false := owes_eq_false nofun

theorem owes_settled : Owes executionId status op .settled = false := owes_eq_false nofun

/-- A record that has moved is owed a count if it belongs to the execution and its status is
    the one that is counted. -/
theorem transition_effect {healthy : Prop} {R : Nat → Prop} {id : String}
    {target : ExecutionStatus} {error : Option String} {executionTime : Option Float}
    {reply : Except StoreError (FileRecord × Bool)} {t : Moment} {now : Timestamp}
    (hstatus : status.counter? = some field)
    (hproper : Proper workflowId executionId s op)
    (hop : op = .advance id target ∨ ∃ c outcome, op = .record c id outcome ∧
      target = outcome.status)
    (hp : s.files.transition id target error executionTime now = (reply, s'.files)) (hR : R n) :
    CountEffect healthy R n (Owes executionId status op .fresh)
      (Owes executionId status op
        (CountStage.after op .fresh
          ⟨t, .files (.transition id target error executionTime), reply⟩))
      (s.files.countByStatus executionId status)
      (s'.files.countByStatus executionId status) := by
  rcases reply with e | ⟨r', moved⟩
  · rcases FileTable.transition_cases hp with ⟨-, hfiles⟩ | ⟨_, _, _, _, hreply, -⟩
    · rw [hfiles]
      exact .quiet hR (owes_settled.trans owes_fresh.symm) rfl
    · cases hreply
  have hterminal := ExecutionStatus.isTerminal_of_counter? hstatus
  obtain ⟨⟨r, hr, hexecution⟩, hcount⟩ :=
    FileTable.countByStatus_transition executionId hp hterminal
  rcases hop with rfl | ⟨c, outcome, rfl, rfl⟩
  · -- The file was moved to a status that is not terminal, and so not to this one.
    have hne : target ≠ status := by
      rintro rfl
      rw [show target.isTerminal = false from hproper] at hterminal
      cases hterminal
    simp only [hne, and_false, if_false, Nat.add_zero] at hcount
    exact .quiet hR rfl hcount
  · obtain ⟨hown, -, -⟩ := hproper
    have hexecution' : r'.executionId = c.executionId := hexecution.symm.trans (hown r hr)
    rw [hexecution'] at hcount
    cases moved with
    | false =>
      simp only [Bool.false_eq_true, false_and, if_false, Nat.add_zero] at hcount
      exact .quiet hR (owes_settled.trans owes_fresh.symm) hcount
    | true =>
      by_cases hmine : c.executionId = executionId ∧ outcome.status = status
      · obtain ⟨rfl, rfl⟩ := hmine
        refine .moved hR owes_fresh ?_ (by simpa using hcount)
        simp [CountStage.after, FileOperation.counter?, hstatus, Owes]
      · simp only [hmine, and_false, if_false, Nat.add_zero] at hcount
        refine .quiet hR (Eq.trans ?_ owes_fresh.symm) hcount
        -- What is owed is a count of another execution or another status.
        simp only [CountStage.after]
        split
        · simpa [Owes] using hmine
        · exact owes_settled

/-- A call to the table of file records. -/
theorem files_effect {call : FileCall} {reply : Except StoreError call.Result} {t : Moment}
    (hstatus : status.counter? = some field)
    (hproper : Proper workflowId executionId s op) (hdrawn : s.Drawn)
    (hr : CountStage.Permits op g (.files call))
    (hs : s.Serves F (.files call) (.ok reply) s')
    (h : s.coord.Reads s.now (Key.execution workflowId executionId) field n) :
    Balances workflowId executionId status field F n s s' op g
      (CountStage.after op g ⟨t, .files call, reply⟩) := by
  obtain ⟨n', hreads, hle, hlasts⟩ := reads_spared hs nofun h
  refine ⟨n', hle, hlasts, ?_⟩
  cases call with
  | createOrGet file =>
    refine .quiet hreads rfl ?_
    rcases hs.files with ⟨id, now, hid, hp, -⟩ | ⟨-, hfiles, -⟩
    · -- A new record is pending, and replaces no other.
      have hnone : s.files.records[id]? = none := by
        cases hold : s.files.records[id]? with
        | none => rfl
        | some r => exact absurd (hdrawn id r hold) hid
      have hfiles : s'.files = (s.files.createOrGet file id now).2 := (congrArg Prod.snd hp).symm
      rw [hfiles]
      exact FileTable.countByStatus_createOrGet hnone
        (ExecutionStatus.isTerminal_of_counter? hstatus)
    · rw [hfiles]
  | transition id target error executionTime =>
    obtain ⟨rfl, hop⟩ := hr
    rcases hs.files with ⟨id', now, -, hp, -⟩ | ⟨⟨e, rfl⟩, hfiles, -⟩
    · exact transition_effect hstatus hproper hop hp hreads
    · rw [hfiles]
      exact .quiet hreads
        (owes_settled.trans owes_fresh.symm) rfl
  | _ => exact hr.elim

/-- An operation that owes a count works on the live record of the execution. -/
theorem statusKey?_of_owes (hproper : Proper workflowId executionId s op)
    (h : Owes executionId status op g = true) :
    op.statusKey? = some (Key.execution workflowId executionId) ∧
      op.counter? = status.counter? := by
  cases op with
  | record c id outcome =>
    cases g with
    | owing =>
      simp only [Owes, Bool.and_eq_true, beq_iff_eq] at h
      obtain ⟨rfl, rfl⟩ := h
      obtain ⟨-, hworkflow, -⟩ := hproper
      rw [← hworkflow rfl]
      exact ⟨rfl, rfl⟩
    | _ => cases h
  | _ => cases h

/-- An operation that may increment the counter in question owes a count of it. -/
theorem owes_of_statusKey? (hstatus : status.counter? = some field)
    (hproper : Proper workflowId executionId s op)
    (hkey : op.statusKey? = some (Key.execution workflowId executionId))
    (hcounter : op.counter? = some field) : Owes executionId status op .owing = true := by
  cases op with
  | record c id outcome =>
    obtain ⟨-, -, hexecution⟩ := hproper
    simp only [Owes, Bool.and_eq_true, beq_iff_eq]
    exact ⟨hexecution (Option.some.inj hkey), ExecutionStatus.counter?_injective hcounter hstatus⟩
  | _ => cases hcounter

theorem spares_of_sparesCounters {call : CoordCall} {key : String}
    (h : CountStage.SparesCounters call) (hstatus : status.counter? = some field) :
    call.Spares key field := by
  cases call with
  | setFields k fields =>
    intro _ p hp heq
    exact h p hp status (heq ▸ hstatus)
  | setNewField k other value =>
    intro _ heq
    exact h status (heq ▸ hstatus)
  | getFields _ | expire _ _ | delete _ => trivial
  | _ => exact h.elim

/-- A call that spares the counters. If it fails, then a count that is owed is given up. -/
theorem sparing_effect {call : CoordCall} {reply : Except CoordError call.Result} {t : Moment}
    (hstatus : status.counter? = some field) (hproper : Proper workflowId executionId s op)
    (hcall : CountStage.SparesCounters call) (hkey : op.statusKey? = some call.subject)
    (hok : ∀ v, CountStage.after op g ⟨t, .coord call, .ok v⟩ = g)
    (herror : ∀ e, CountStage.after op g ⟨t, .coord call, .error e⟩ = .settled)
    (hs : s.Serves F (.coord call) (.ok reply) s')
    (h : s.coord.Reads s.now (Key.execution workflowId executionId) field n) :
    Balances workflowId executionId status field F n s s' op g
      (CountStage.after op g ⟨t, .coord call, reply⟩) := by
  have hspares : call.Spares (Key.execution workflowId executionId) field :=
    spares_of_sparesCounters hcall hstatus
  have hnot : ∀ other delta,
      call ≠ .increment (Key.execution workflowId executionId) other delta := by
    rintro other delta rfl
    exact hcall
  obtain ⟨n', hreads, hle, hlasts⟩ :=
    reads_spared hs (fun call' heq => by cases heq; exact hspares) h
  refine ⟨n', hle, hlasts, ?_⟩
  rw [hs.files_eq nofun]
  cases reply with
  | ok v =>
    rw [hok]
    exact .quiet hreads rfl rfl
  | error e =>
    rw [herror]
    cases howes : Owes executionId status op g with
    | false => exact .quiet hreads owes_settled rfl
    | true =>
      refine .givenUp (fun hhealthy => ?_) hreads rfl owes_settled rfl
      have hsubject : call.subject = Key.execution workflowId executionId :=
        Option.some.inj (hkey.symm.trans (statusKey?_of_owes hproper howes).1)
      rcases hs.answered with hp | ⟨⟨e, he, -⟩, -⟩
      · obtain ⟨n₁, hreads₁, -, -⟩ := reads_later h hs.now_le
        obtain ⟨v, hv⟩ := hreads₁.answers hhealthy.2 hsubject hspares hnot hp
        cases hv
      · exact hhealthy.1 _ e he

/-- An increment counts what the operation owes. -/
theorem increment_effect {key other : String} {reply : Except CoordError Int}
    (hstatus : status.counter? = some field) (hproper : Proper workflowId executionId s op)
    (hkey : op.statusKey? = some key) (hcounter : op.counter? = some other)
    (hs : s.Serves F (.coord (.increment key other 1)) (.ok reply) s')
    (h : s.coord.Reads s.now (Key.execution workflowId executionId) field n) :
    Balances workflowId executionId status field F n s s' op .owing
      .settled := by
  unfold Balances
  rw [hs.files_eq nofun]
  by_cases hmine : key = Key.execution workflowId executionId ∧ other = field
  · obtain ⟨rfl, rfl⟩ := hmine
    have howes := owes_of_statusKey? hstatus hproper hkey hcounter
    obtain ⟨n', hle, hlasts, hnext | ⟨hfailed, hreads⟩⟩ := reads_increment hs h
    · exact ⟨n', hle, hlasts, .counted hnext howes owes_settled rfl⟩
    · exact ⟨n', hle, hlasts, .givenUp hfailed hreads howes owes_settled rfl⟩
  · -- The counter is another one, and so is the count that is owed.
    have hnot : Owes executionId status op .owing = false := by
      cases howes : Owes executionId status op .owing with
      | false => rfl
      | true =>
        obtain ⟨hkey', hcounter'⟩ := statusKey?_of_owes hproper howes
        rw [hkey] at hkey'
        rw [hcounter, hstatus] at hcounter'
        exact absurd ⟨Option.some.inj hkey', Option.some.inj hcounter'⟩ hmine
    obtain ⟨n', hreads, hle, hlasts⟩ := reads_spared hs (fun call heq => by
      cases heq
      exact fun hk hf => hmine ⟨hk, hf⟩) h
    exact ⟨n', hle, hlasts, .quiet hreads (owes_settled.trans hnot.symm) rfl⟩

/-- Whatever an operation asks for, the balance is kept. -/
theorem request_effect {reply : r.Reply} {t : Moment} (hstatus : status.counter? = some field)
    (hproper : Proper workflowId executionId s op) (hdrawn : s.Drawn)
    (hr : CountStage.Permits op g r) (hs : s.Serves F r (.ok reply) s')
    (h : s.coord.Reads s.now (Key.execution workflowId executionId) field n) :
    Balances workflowId executionId status field F n s s' op g
      (CountStage.after op g ⟨t, r, reply⟩) := by
  cases r with
  | files call => exact files_effect hstatus hproper hdrawn hr hs h
  | coord call =>
    cases call with
    | increment key other delta =>
      obtain ⟨rfl, hkey, hcounter, rfl⟩ := hr
      exact increment_effect hstatus hproper hkey hcounter hs h
    | setFields _ _ | setNewField _ _ _ | getFields _ | expire _ _ | delete _ =>
      exact sparing_effect hstatus hproper hr.1 hr.2 (fun _ => rfl) (fun _ => rfl) hs h
    | _ => exact hr.1.elim
  | time | report _ =>
    obtain ⟨n', hreads, hle, hlasts⟩ := reads_spared hs nofun h
    unfold Balances
    rw [hs.files_eq nofun]
    exact ⟨n', hle, hlasts, .quiet hreads rfl rfl⟩
  | _ => exact hr.elim

/-! ### Steps -/

/-- A worker that is put back changes a number of workers as it changes itself. -/
theorem countP_set_add {α : Type} (p : α → Bool) {ws : List α} {i : Nat} {w : α} (w' : α)
    (hw : ws[i]? = some w) :
    (ws.set i w').countP p + (p w).toNat = ws.countP p + (p w').toNat := by
  obtain ⟨hi, rfl⟩ := List.getElem?_eq_some_iff.mp hw
  have hpos : p ws[i] = true → 0 < ws.countP p := fun hp =>
    List.countP_pos_iff.mpr ⟨_, List.getElem_mem hi, hp⟩
  rw [List.countP_set hi]
  cases hp : p ws[i] with
  | false => cases hp' : p w' <;> simp
  | true =>
    have := hpos hp
    cases hp' : p w' <;> simp <;> omega

theorem Tally.start (hcoord : s.coord.entries = ∅) (hfiles : s.files = {}) :
    Tally (l := l) workflowId executionId status field ⟨s, []⟩ 0 0 where
  reads := CoordStore.reads_of_absent (CoordStore.live?_of_absent (by simp [hcoord]))
  balance := by
    rw [hfiles]
    rfl

variable {lost : Nat}

/-- Time that passes may take the live record away, and the counts in it. -/
theorem Tally.passes (h : Tally workflowId executionId status field σ n lost)
    (hnow : σ.shared.now ≤ σ'.shared.now) (hcoord : σ'.shared.coord = σ.shared.coord)
    (hfiles : σ'.shared.files = σ.shared.files)
    (howed : owed executionId status σ' = owed executionId status σ) :
    ∃ n' lost', Tally workflowId executionId status field σ' n' lost' ∧
      (σ.shared.RecordLasts (Key.execution workflowId executionId) σ'.shared → lost' = lost) := by
  obtain ⟨n', hreads, hle, hsame⟩ := reads_later h.reads hnow
  have hbalance := h.balance
  refine ⟨n', lost + (n - n'), ⟨hcoord ▸ hreads, ?_⟩, fun hlasts => ?_⟩
  · rw [howed, hfiles]
    omega
  · have := hsame fun hlive => (hlasts hlive).1
    omega

/-- A request keeps the balance, and loses a count only if the live record goes or a call
    fails. -/
theorem Tally.asked {i : Nat} {w : Worker l.fileRepertoire} {reply : r.Reply}
    {left : Program (l.fileRepertoire.Result w.op)}
    (h : Tally workflowId executionId status field σ n lost)
    (hstatus : status.counter? = some field)
    (hproper : Proper workflowId executionId σ.shared w.op) (hdrawn : σ.shared.Drawn)
    (hw : σ.workers[i]? = some w)
    (hr : CountStage.Permits w.op (l.fileDiscipline.stageOf w) r)
    (hs : σ.shared.Serves F r (.ok reply) s') :
    ∃ n' lost', Tally workflowId executionId status field
        ⟨s', σ.workers.set i (w.asked s' r reply left)⟩ n' lost' ∧
      (Healthy F σ.shared →
        σ.shared.RecordLasts (Key.execution workflowId executionId) s' → lost' = lost) := by
  have hbalance := h.balance
  have howed : owed executionId status ⟨s', σ.workers.set i (w.asked s' r reply left)⟩ +
        (Owes executionId status w.op (l.fileDiscipline.stageOf w)).toNat =
      owed executionId status σ + (Owes executionId status w.op
        (CountStage.after w.op (l.fileDiscipline.stageOf w) ⟨s'.now, r, reply⟩)).toNat :=
    countP_set_add (WorkerOwes executionId status) (w.asked s' r reply left) hw
  obtain ⟨n', hle, hsame, heffect⟩ := request_effect hstatus hproper hdrawn hr hs h.reads
  cases heffect with
  | quiet hR howes hcount =>
    rw [howes] at howed
    refine ⟨n', lost + (n - n'), ⟨hR, ?_⟩, fun _ hlasts => ?_⟩
    · rw [hcount]
      omega
    · have := hsame hlasts
      omega
  | moved hR howes howes' hcount =>
    rw [howes, howes'] at howed
    simp only [Bool.toNat_false, Bool.toNat_true] at howed
    refine ⟨n', lost + (n - n'), ⟨hR, ?_⟩, fun _ hlasts => ?_⟩
    · rw [hcount]
      omega
    · have := hsame hlasts
      omega
  | counted hR howes howes' hcount =>
    rw [howes, howes'] at howed
    simp only [Bool.toNat_false, Bool.toNat_true] at howed
    refine ⟨n' + 1, lost + (n - n'), ⟨hR, ?_⟩, fun _ hlasts => ?_⟩
    · rw [hcount]
      omega
    · have := hsame hlasts
      omega
  | givenUp hfailed hR howes howes' hcount =>
    rw [howes, howes'] at howed
    simp only [Bool.toNat_false, Bool.toNat_true] at howed
    refine ⟨n', lost + (n - n') + 1, ⟨hR, ?_⟩, fun hhealthy _ => absurd hhealthy hfailed⟩
    rw [hcount]
    omega

/-- Every step keeps the balance. -/
theorem Tally.step (h : Tally workflowId executionId status field σ n lost)
    (hstatus : status.counter? = some field)
    (hkept : ∀ w ∈ σ.workers, l.fileDiscipline.KeptTo (fun _ _ g => g ≠ .owing) w)
    (hproper : ∀ w ∈ σ.workers, Proper workflowId executionId σ.shared w.op)
    (hdrawn : σ.shared.Drawn) (hstep : σ.Step F σ') :
    ∃ n' lost', Tally workflowId executionId status field σ' n' lost' ∧
      (Healthy F σ.shared →
        σ.shared.RecordLasts (Key.execution workflowId executionId) σ'.shared →
        lost' = lost) := by
  -- Where a worker stands still, as many counts are owed as before.
  have hpasses : σ.shared.now ≤ σ'.shared.now → σ'.shared.coord = σ.shared.coord →
      σ'.shared.files = σ.shared.files → owed executionId status σ' = owed executionId status σ →
      ∃ n' lost', Tally workflowId executionId status field σ' n' lost' ∧
        (Healthy F σ.shared →
          σ.shared.RecordLasts (Key.execution workflowId executionId) σ'.shared →
          lost' = lost) := by
    intro hnow hcoord hfiles howed
    obtain ⟨n', lost', htally, hlost⟩ := h.passes hnow hcoord hfiles howed
    exact ⟨n', lost', htally, fun _ => hlost⟩
  cases hstep with
  | start op =>
    refine hpasses (Nat.le_refl _) rfl rfl ?_
    have hnew : WorkerOwes executionId status (l.fileRepertoire.worker op) = false := owes_fresh
    unfold owed
    rw [List.countP_append, List.countP_singleton, hnew]
    rfl
  | wait hnow => exact hpasses hnow rfl rfl rfl
  | asked hw hleft hs =>
    have hmem := List.mem_of_getElem? hw
    exact h.asked hstatus (hproper _ hmem) hdrawn hw ((hkept _ hmem).permits hleft) hs
  | @stopped _ _ _ _ w _ _ ov hw hleft hs =>
    refine hpasses hs.now_le hs.stopped.1 hs.stopped_files ?_
    -- The worker owes as much as before, though nobody will count it.
    have howed := countP_set_add (WorkerOwes executionId status) (w.stopped ov) hw
    exact Nat.add_right_cancel howed

/-! ### Runs -/

theorem FileRuns.reachable (h : FileRuns workflowId executionId l F lasting σ) :
    Reachable F (fun _ => True) σ := by
  induction h with
  | start hcoord _ => exact .start hcoord trivial
  | step _ hstep _ _ ih => exact .step ih hstep trivial

theorem FileRuns.proper (h : FileRuns workflowId executionId l F lasting σ) :
    ∀ w ∈ σ.workers, Proper workflowId executionId σ.shared w.op := by
  cases h with
  | start _ _ => exact nofun
  | step _ _ hproper _ => exact hproper

theorem FileRuns.drawn (h : FileRuns workflowId executionId l F lasting σ) : σ.shared.Drawn := by
  induction h with
  | start _ hfiles =>
    intro id r hr
    simp [hfiles] at hr
  | step _ hstep _ _ ih =>
    cases hstep.effect with
    | passes _ hs => rw [hs]; exact ih
    | asked _ _ hs => exact ih.serves hs
    | stopped _ _ hs =>
      intro id r hr
      rw [hs.stopped_files] at hr
      rw [hs.stopped.2]
      exact ih id r hr

theorem FileRuns.tally (h : FileRuns workflowId executionId l F lasting σ)
    (hstatus : status.counter? = some field) :
    ∃ n lost, Tally workflowId executionId status field σ n lost ∧
      (lasting → Healthy F σ.shared → lost = 0) := by
  induction h with
  | start hcoord hfiles => exact ⟨0, 0, .start hcoord hfiles, fun _ _ => rfl⟩
  | @step σ σ' h hstep _ hlasts ih =>
    obtain ⟨n, lost, htally, hlost⟩ := ih
    obtain ⟨n', lost', htally', hlost'⟩ :=
      htally.step hstatus (files_endsAs.keptTo h.reachable) h.proper h.drawn hstep
    refine ⟨n', lost', htally', fun hlasting hhealthy => ?_⟩
    have hbefore : Healthy F σ.shared := ⟨hhealthy.1, hstep.available ▸ hhealthy.2⟩
    rw [hlost' hbefore (hlasts hlasting), hlost hlasting hbefore]

/-- A counter that shows a number of 64 bits is looked up as that number. -/
theorem readCounter_of_shows {f : Fields} (key : String) (h : Shows f field n)
    (hn : n ≤ Text.maxInt64) : StatusRecord.readCounter f key field = .ok n := by
  unfold StatusRecord.readCounter
  rcases h with ⟨hnone, rfl⟩ | hsome
  · simp [hnone]
  · have htext : toString n = toString (n : Int) := rfl
    rw [hsome, htext]
    simp only [Text.readInt_toString hn]
    rfl

theorem tracked_of_reads
    (h : s.coord.Reads s.now (Key.execution workflowId executionId) field n) :
    s.tracked workflowId executionId field = .ok n := by
  obtain ⟨f, hf, hshows, hn⟩ := h
  simp only [Shared.tracked, hf]
  exact readCounter_of_shows _ hshows hn

/-- Nothing is owed when every operation that finishes a file is over. -/
theorem owed_eq_zero (status : ExecutionStatus)
    (h : FileRuns workflowId executionId l F lasting σ)
    (hdone : ∀ w ∈ σ.workers, ∀ c id outcome, w.op = .record c id outcome → w.isDone) :
    owed executionId status σ = 0 := by
  unfold owed
  rw [List.countP_eq_zero]
  intro w hw howes
  cases hop : w.op with
  | record c id outcome =>
    obtain ⟨result, hresult⟩ := Worker.exists_of_isDone (hdone w hw c id outcome hop)
    have hstage := (files_endsAs.keptTo h.reachable w hw).done hresult
    unfold WorkerOwes at howes
    rw [owes_eq_false hstage] at howes
    cases howes
  | _ =>
    unfold WorkerOwes at howes
    rw [hop] at howes
    cases howes

/-- Whatever files are registered, moved and finished side by side, and whichever calls fail,
    a live counter of an execution can be read, and has at most the number of its durable
    records in the status that is counted. It has that number if the live record lasts, no
    call to the coordination store fails, and every operation that finishes a file is over;
    one that overflowed is not. -/
theorem counters_bounded (h : FileRuns workflowId executionId l F lasting σ)
    (hstatus : status.counter? = some field) :
    ∃ n, σ.shared.tracked workflowId executionId field = .ok n ∧
      n ≤ σ.shared.files.countByStatus executionId status ∧
      (lasting → (∀ call e, ¬ F.coord call e) → σ.shared.coord.available = true →
        (∀ w ∈ σ.workers, ∀ c id outcome, w.op = .record c id outcome → w.isDone) →
        n = σ.shared.files.countByStatus executionId status) := by
  obtain ⟨n, lost, htally, hlost⟩ := h.tally hstatus
  have hbalance := htally.balance
  refine ⟨n, tracked_of_reads htally.reads, by omega, fun hlasting hF havailable hdone => ?_⟩
  have hnone := hlost hlasting ⟨hF, havailable⟩
  have howed := owed_eq_zero status h hdone
  omega

/-! ### A schedule -/

/-- Whether every scene of a schedule is one of a run in which the live record lasts. -/
def Smooth (workflowId executionId : String) (σ : Scene l.fileRepertoire) :
    List l.fileRepertoire.Turn → Prop
  | [] => True
  | turn :: turns =>
    (∀ w ∈ (σ.turn turn).workers, Proper workflowId executionId (σ.turn turn).shared w.op) ∧
      σ.shared.RecordLasts (Key.execution workflowId executionId) (σ.turn turn).shared ∧
      Smooth workflowId executionId (σ.turn turn) turns

instance decidableSmooth (workflowId executionId : String) : (turns : List l.fileRepertoire.Turn) →
    (σ : Scene l.fileRepertoire) → Decidable (Smooth workflowId executionId σ turns)
  | [], _ => isTrue trivial
  | turn :: turns, σ =>
    have := decidableSmooth workflowId executionId turns (σ.turn turn)
    inferInstanceAs (Decidable (_ ∧ _ ∧ _))

theorem FileRuns.after {turns : List l.fileRepertoire.Turn}
    (h : FileRuns workflowId executionId l F lasting σ)
    (hsmooth : Smooth workflowId executionId σ turns) :
    FileRuns workflowId executionId l F lasting (σ.after turns) := by
  induction turns generalizing σ with
  | nil => exact h
  | cons turn turns ih =>
    obtain ⟨hproper, hlasts, hrest⟩ := hsmooth
    refine ih ?_ hrest
    rcases σ.turn_step F turn with hstep | hsame
    · exact .step h hstep hproper fun _ => hlasts
    · rw [hsame]
      exact h

/-- Admission and tracking with the default settings. -/
def withDefaults : Lifecycle := ⟨⟨{}, .ofDefault 20 (.seconds 600)⟩, ⟨{}⟩⟩

/-- A file is registered and then finished, once by each of two workers. -/
def finishedTwice : List withDefaults.fileRepertoire.Turn :=
  .start (.register ⟨"e", "n", "p", "h", 0, none⟩) :: .next 0 ::
    .start (.record ⟨"o", "w", "e", "c"⟩ "" (.completed 0.5)) ::
    .start (.record ⟨"o", "w", "e", "c"⟩ "" (.completed 0.5)) ::
    .next 1 :: .next 2 :: List.replicate 7 (.next 1)

theorem counters_bounded_finished_twice :
    ∃ σ : Scene withDefaults.fileRepertoire,
      FileRuns "w" "e" withDefaults .never True σ ∧
      (∀ w ∈ σ.workers, w.isDone) ∧
      σ.shared.files.countByStatus "e" .completed = 1 ∧
      σ.shared.tracked "w" "e" StatusRecord.completedField = .ok 1 := by
  have hsmooth : Smooth "w" "e" ⟨{}, []⟩ finishedTwice := by decide +kernel
  have hchecks : (Scene.after ⟨{}, []⟩ finishedTwice).shared.coord.available = true ∧
      (∀ w ∈ (Scene.after ⟨{}, []⟩ finishedTwice).workers, w.isDone) ∧
      (Scene.after ⟨{}, []⟩ finishedTwice).shared.files.countByStatus "e" .completed = 1 := by
    decide +kernel
  have hruns : FileRuns "w" "e" withDefaults .never True (Scene.after ⟨{}, []⟩ finishedTwice) :=
    (FileRuns.start rfl rfl).after hsmooth
  -- The last scene is not computed any further.
  generalize Scene.after ⟨{}, []⟩ finishedTwice = σ at hchecks hruns
  obtain ⟨havailable, hdone, hcount⟩ := hchecks
  have hstatus : ExecutionStatus.completed.counter? = some StatusRecord.completedField := rfl
  obtain ⟨n, htracked, -, hequal⟩ := counters_bounded hruns hstatus
  have hn := hequal trivial (fun _ _ => id) havailable fun w hw _ _ _ _ => hdone w hw
  rw [hn, hcount] at htracked
  exact ⟨σ, hruns, hdone, hcount, htracked⟩

end Lifecycle

end ExecutionControl
