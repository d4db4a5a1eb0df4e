import ExecutionControl.Proofs.Admission.Course
import ExecutionControl.Proofs.Admission.Requests
import ExecutionControl.Proofs.Limits.Operations
import ExecutionControl.Proofs.Tracking.Isolation
import ExecutionControl.Proofs.TypedStore
import ExecutionControl.Sweeping.Sweeper

/-! # The operations of the whole system

    Every operation of admission, of the limit cache, of tracking, of operators and of the
    sweeper that calls the coordination store, as data. All their calls suit the keys that
    they are for (`System.asks_program`).
-/

namespace ExecutionControl

open Program

/-- What the operations of the whole system act on. -/
structure System where
  operator : Operator
  tracker : Tracker

/-- One operation of the system. -/
inductive SystemOperation where
  /-- An operation of admission at a given time. -/
  | onSlots (op : Operation)
  /-- An operation on limits. -/
  | onLimits (op : LimitOperation)
  /-- An operation on the record of an execution. -/
  | onRecord (workflowId executionId : String) (op : TrackerOperation)
  | lookUp (workflowId executionId : String)
  | tryAdmit (c : ExecutionContext)
  | usage (orgId : String)
  | sweepAll
  | setCustomLimit (orgId : String) (limit : Nat)
  | deleteCustomLimit (orgId : String)
  | usageReport (orgId : String)
  | sweepOnce (m : Metrics) (now : Timestamp)
  | sweepTick (m : Metrics)
  | sweepFor (interval left : Duration) (m : Metrics)

namespace SystemOperation

/-- What an operation gives back. -/
abbrev Result : SystemOperation → Type
  | .onSlots op => op.Result
  | .onLimits op => op.Result
  | .onRecord _ _ op => op.Result
  | .lookUp .. => StatusLookup
  | .tryAdmit _ => Except AdmissionError Decision
  | .usage _ => Except CoordError Usage
  | .sweepAll => Except CoordError SweepReport
  | .setCustomLimit .. => Except OperatorError Unit
  | .deleteCustomLimit _ => Except OperatorError Bool
  | .usageReport _ => Except OperatorError UsageReport
  | .sweepOnce .. => Except CoordError SweepReport × Metrics
  | .sweepTick _ => Metrics
  | .sweepFor .. => Metrics

/-- An execution was let in without a check. -/
def Degraded : (op : SystemOperation) → op.Result → Prop
  | .onSlots (.tryAdmit ..), result => result = .ok (.admitted true)
  | .tryAdmit _, result => result = .ok (.admitted true)
  | _, _ => False

end SystemOperation

namespace System

/-- The program of an operation. -/
def program (sys : System) : (op : SystemOperation) → Program op.Result
  | .onSlots op => sys.operator.admission.program op
  | .onLimits op => sys.operator.limitProgram op
  | .onRecord workflowId executionId op => sys.tracker.program workflowId executionId op
  | .lookUp workflowId executionId => Tracker.get workflowId executionId
  | .tryAdmit c => sys.operator.admission.tryAdmit c
  | .usage orgId => (sys.operator.admission.usage orgId).run
  | .sweepAll => sys.operator.admission.sweepAll.run
  | .setCustomLimit orgId limit => (sys.operator.setCustomLimit orgId limit).run
  | .deleteCustomLimit orgId => (sys.operator.deleteCustomLimit orgId).run
  | .usageReport orgId => (sys.operator.usageReport orgId).run
  | .sweepOnce m now => sys.operator.admission.sweepOnce m now
  | .sweepTick m => sys.operator.admission.sweepTick m
  | .sweepFor interval left m => sys.operator.admission.sweepFor interval left m

/-- All operations of the system. -/
abbrev repertoire (sys : System) : Repertoire :=
  ⟨SystemOperation, SystemOperation.Result, sys.program⟩

end System

/-! ### Calls that suit their keys -/

/-- A request suits its key if it is a call to the coordination store. -/
def Request.Suits (r : Request) : Prop := ∀ call, r = .coord call → call.Suits

theorem Request.suits_of_ne {r : Request} (h : ∀ call, r ≠ .coord call) : r.Suits :=
  fun call hcall => absurd hcall (h call)

theorem Request.suits_coord {call : CoordCall} (h : call.Suits) : (Request.coord call).Suits := by
  rintro _ ⟨⟩
  exact h

/-- Whatever fails, a request that suits its key leaves a typed store typed. -/
theorem Shared.Serves.typed_of_suits {F : Faults} {s s' : Shared} {r : Request}
    {reply : Checked r.Reply} (hs : s.Serves F r reply s') (hsuits : r.Suits)
    (htyped : s.coord.Typed) : s'.coord.Typed := by
  cases r with
  | coord call =>
    obtain ⟨-, -, ⟨answer, -, hp⟩ | ⟨-, hcoord⟩ | ⟨-, hcoord⟩⟩ := hs.coord
    · exact htyped.perform (hsuits call rfl) hp
    · rw [hcoord]
      exact htyped
    · rw [hcoord]
      exact htyped
  | _ =>
    rw [hs.coord_eq nofun]
    exact htyped

/-- What is asked for one organisation suits its keys. -/
theorem Request.ForOrg.suits {orgId : String} {r : Request} (h : r.ForOrg orgId) : r.Suits := by
  have hslots : ∀ {key : String}, key = Key.orgSlots orgId ∨ key = Key.globalSlots →
      Key.IsSlots key := by
    rintro key (rfl | rfl)
    · exact Key.isSlots_orgSlots orgId
    · exact Key.isSlots_globalSlots
  rintro call rfl
  cases call with
  | addMember key member score => exact hslots h
  | removeMember key member => exact hslots h
  | cardinality key => exact hslots h
  | removeScores key low high => exact hslots h
  | tryLock key token ttl => exact .inl ⟨orgId, h⟩
  | unlock key token => exact .inl ⟨orgId, h⟩
  | getText key => exact .inr ⟨orgId, h⟩
  | setText key value ttl => exact .inr ⟨orgId, h⟩
  | delete key => trivial
  | _ => exact h.elim

/-- What an operation on the record of an execution may ask suits its keys. -/
theorem TrackStage.Permits.suits {workflowId executionId : String} {op : TrackerOperation}
    {g : TrackStage} {r : Request} (h : Permits (Key.execution workflowId executionId) op g r) :
    r.Suits := by
  have hkey : Key.IsExecution (Key.execution workflowId executionId) := ⟨_, _, rfl⟩
  have hupdated : ∀ value, StatusRecord.Fits StatusRecord.updatedField value :=
    fits_other (by decide) (by decide) (by decide)
  cases h with
  | time => exact Request.suits_of_ne (by simp)
  | seed => exact Request.suits_coord ⟨hkey, fits_status .pending⟩
  | startCounter c =>
    have hzero : "0" = toString 0 := rfl
    rw [hzero]
    exact Request.suits_coord ⟨hkey, fits_counter c.field_cases (Nat.zero_le _)⟩
  | stamp now =>
    exact Request.suits_coord ⟨hkey, fits_other (by decide) (by decide) (by decide) now⟩
  | total now =>
    refine Request.suits_coord ⟨hkey, ?_⟩
    simp only [List.forall_mem_cons]
    exact ⟨fits_other (by decide) (by decide) (by decide) _, hupdated now, by simp⟩
  | count c => exact Request.suits_coord ⟨hkey, c.field_cases, rfl⟩
  | touch now =>
    refine Request.suits_coord ⟨hkey, ?_⟩
    simp only [List.forall_mem_cons]
    exact ⟨hupdated now, by simp⟩
  | @mark value status hvalue now =>
    refine Request.suits_coord ⟨hkey, ?_⟩
    simp only [List.forall_mem_cons]
    exact ⟨fits_status status, hupdated now, by simp⟩
  | look => exact Request.suits_coord hkey
  | expire ttl => exact Request.suits_coord hkey
  | delete => exact Request.suits_coord trivial

theorem Tracker.Looks.suits {workflowId executionId : String} {r : Request}
    (h : Looks (Key.execution workflowId executionId) r) : r.Suits := by
  rintro call rfl
  obtain rfl : call = .getFields _ := h
  exact ⟨_, _, rfl⟩

/-! ### What the programs ask -/

/-- An operation for one organisation makes calls that suit their keys. -/
theorem Program.Asks.suits {α : Type} {prog : Program α} {orgId : String}
    (h : prog.Asks (Request.ForOrg orgId)) : prog.Asks Request.Suits :=
  h.imp fun _ hr => hr.suits

theorem asks_other {r : Request} (h : ∀ call, r ≠ .coord call) : (request r).Asks Request.Suits :=
  asks_request (Request.suits_of_ne h)

namespace Admission

variable (a : Admission) (now : Timestamp)

/-- Only sets of slots are swept, whatever keys are given. -/
theorem asks_sweepSets (keys : List String) (report : SweepReport) :
    (a.sweepSets now keys report).run.Asks Request.Suits := by
  induction keys generalizing report with
  | nil => exact asks_run_pure report
  | cons key keys ih =>
    unfold sweepSets
    cases horg : Key.orgOfSlots? key with
    | none => exact ih report
    | some o =>
      -- The key was made from a name, whatever the scan was for.
      have hkey : Key.IsSlots key := .inr ⟨o, Key.eq_orgSlots_of_orgOfSlots? horg⟩
      refine Asks.run_bind (Asks.run_attempt (a.asks_purge now (Request.suits_coord hkey)))
        fun outcome => ?_
      cases outcome with
      | ok n => exact ih _
      | error e =>
        show Program.Asks _ (ExceptT.run (if e.isUnavailable then _ else _))
        split
        · exact asks_run_throw e
        · exact Asks.run_bind (Asks.run_lift (asks_other (by simp))) fun _ => ih _

theorem asks_sweepAllAt : (a.sweepAllAt now).run.Asks Request.Suits := by
  refine Asks.run_bind (asks_run_call (Request.suits_coord trivial)) fun keys => ?_
  refine Asks.run_bind (a.asks_sweepSets now keys {}) fun report => ?_
  refine Asks.run_bind (a.asks_purge now (Request.suits_coord Key.isSlots_globalSlots)) fun n => ?_
  exact asks_run_pure _

theorem asks_sweepAll : a.sweepAll.run.Asks Request.Suits :=
  Asks.run_bind (Asks.run_lift (asks_other (by simp))) fun now => a.asks_sweepAllAt now

theorem asks_sweepOnce (m : Metrics) : (a.sweepOnce m now).Asks Request.Suits := by
  refine (a.asks_sweepAllAt now).bind fun outcome => ?_
  cases outcome with
  | ok report => exact asks_pure _
  | error e => exact asks_pure _

theorem asks_sweepTick (m : Metrics) : (a.sweepTick m).Asks Request.Suits := by
  refine (asks_other (by simp)).bind fun now => ?_
  refine (a.asks_sweepOnce now m).bind fun outcome => ?_
  match outcome with
  | (.ok report, m) => exact asks_pure m
  | (.error e, m) => exact (asks_other (by simp)).bind fun _ => asks_pure m

theorem asks_sweepFor (interval left : Duration) (m : Metrics) :
    (a.sweepFor interval left m).Asks Request.Suits := by
  induction left, m using sweepFor.induct interval with
  | case1 left m hleft =>
    unfold sweepFor
    rw [if_pos hleft]
    exact asks_pure m
  | case2 left m hleft hinterval =>
    unfold sweepFor
    rw [if_neg hleft, if_pos hinterval]
    exact (asks_other (by simp)).bind fun _ => asks_pure m
  | case3 left m hleft hinterval ih =>
    unfold sweepFor
    rw [if_neg hleft, if_neg hinterval]
    refine (a.asks_sweepTick m).bind fun m => ?_
    exact (asks_other (by simp)).bind fun _ => ih m

/-- All calls of the operations on slots suit their keys. -/
theorem asks_program (op : Operation) : (a.program op).Asks Request.Suits := by
  cases op with
  | tryAdmit c now => exact (a.asks_tryAdmitAt c now).suits
  | release orgId executionId => exact (asks_release orgId executionId).suits
  | usage orgId now => exact (a.asks_usageAt orgId now).suits
  | sweepOrg orgId now => exact (a.asks_sweepOrgAt orgId now).suits
  | sweepAll now => exact a.asks_sweepAllAt now
  | setLimit orgId limit => exact (a.cache.asks_setLimit orgId limit).suits
  | deleteLimit orgId => exact (a.cache.asks_deleteLimit orgId).suits

end Admission

namespace Operator

variable (o : Operator)

theorem asks_deleteKeys (keys : List String) (deleted : Nat) :
    (deleteKeys keys deleted).run.Asks Request.Suits := by
  induction keys generalizing deleted with
  | nil => exact asks_run_pure deleted
  | cons key keys ih =>
    exact Asks.run_bind (asks_run_call (Request.suits_coord trivial)) fun existed => ih _

theorem asks_clearAllCaches : clearAllCaches.run.Asks Request.Suits := by
  refine Asks.map (Asks.run_bind (Asks.run_attempt (asks_run_call (Request.suits_coord trivial)))
    fun outcome => ?_)
  match outcome with
  | .ok n => exact asks_run_pure n
  | .error (.unsupported adapter operation) =>
    -- A store that cannot delete by pattern has its keys deleted one by one.
    exact Asks.run_bind (asks_run_call (Request.suits_coord trivial)) fun keys =>
      asks_deleteKeys keys 0
  | .error (.unavailable reason) => exact asks_run_throw _
  | .error (.wrongType key) => exact asks_run_throw _
  | .error (.corrupt key reason) => exact asks_run_throw _
  | .error (.contentionExhausted key) => exact asks_run_throw _

theorem asks_invalidateEach (c : LimitCache) (orgIds : List String) :
    (invalidateEach c orgIds).Asks Request.Suits := by
  induction orgIds with
  | nil => exact asks_pure ()
  | cons orgId orgIds ih => exact (c.asks_invalidate orgId).suits.bind fun _ => ih

theorem asks_clearCustomCaches : o.clearCustomCaches.run.Asks Request.Suits := by
  refine Asks.run_bind (Asks.map (asks_other (by simp))) fun rows => ?_
  exact Asks.run_bind (Asks.run_lift (asks_invalidateEach _ _)) fun _ => asks_run_pure _

/-- All calls of the operations on limits suit their keys. -/
theorem asks_limitProgram (op : LimitOperation) : (o.limitProgram op).Asks Request.Suits := by
  cases op with
  | get orgId => exact (o.admission.cache.asks_getLimit orgId).suits
  | set orgId limit => exact (o.admission.cache.asks_setLimit orgId limit).suits
  | delete orgId => exact (o.admission.cache.asks_deleteLimit orgId).suits
  | invalidate orgId => exact (o.admission.cache.asks_invalidate orgId).suits
  | clearOrgCache orgId => exact (asks_clearOrgCache orgId).suits
  | clearAllCaches => exact asks_clearAllCaches
  | clearCustomCaches => exact o.asks_clearCustomCaches

theorem asks_setCustomLimit (orgId : String) (limit : Nat) :
    (o.setCustomLimit orgId limit).run.Asks Request.Suits :=
  Asks.run_bind (Asks.map (o.admission.cache.asks_setLimit orgId limit).suits) fun _ =>
    asks_run_pure ()

theorem asks_deleteCustomLimit (orgId : String) :
    (o.deleteCustomLimit orgId).run.Asks Request.Suits :=
  Asks.map (o.admission.cache.asks_deleteLimit orgId).suits

theorem asks_usageReport (orgId : String) : (o.usageReport orgId).run.Asks Request.Suits := by
  refine Asks.run_bind (Asks.map (o.admission.asks_usage orgId).suits) fun usage => ?_
  exact Asks.run_bind (Asks.map (asks_other (by simp))) fun row => asks_run_pure _

end Operator

/-- All calls of all operations suit their keys. -/
theorem System.asks_program (sys : System) (op : SystemOperation) :
    (sys.program op).Asks Request.Suits := by
  cases op with
  | onSlots op => exact sys.operator.admission.asks_program op
  | onLimits op => exact sys.operator.asks_limitProgram op
  | onRecord workflowId executionId op =>
    refine (asks_of_ensures (sys.tracker.endsAs workflowId executionId op)).imp ?_
    rintro r ⟨g, hpermits⟩
    exact hpermits.suits
  | lookUp workflowId executionId =>
    exact (Tracker.get_looks workflowId executionId).imp fun _ hr => hr.suits
  | tryAdmit c => exact (sys.operator.admission.asks_tryAdmit c).suits
  | usage orgId => exact (sys.operator.admission.asks_usage orgId).suits
  | sweepAll => exact sys.operator.admission.asks_sweepAll
  | setCustomLimit orgId limit => exact sys.operator.asks_setCustomLimit orgId limit
  | deleteCustomLimit orgId => exact sys.operator.asks_deleteCustomLimit orgId
  | usageReport orgId => exact sys.operator.asks_usageReport orgId
  | sweepOnce m now => exact sys.operator.admission.asks_sweepOnce now m
  | sweepTick m => exact sys.operator.admission.asks_sweepTick m
  | sweepFor interval left m => exact sys.operator.admission.asks_sweepFor interval left m

end ExecutionControl
