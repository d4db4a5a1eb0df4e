import ExecutionControl.Admission.Config
import ExecutionControl.Admission.Decision
import ExecutionControl.Admission.LimitCache
import ExecutionControl.Execution.Context

/-! # Admission control

    An execution that runs holds a slot in the set of its organisation and one in the
    set of the whole system, both scored with the time of its admission. A slot that is
    older than the retention counts no more and is reclaimed by whoever looks next.

    Admissions of one organisation are serialised by its lock. The count of the whole
    system is read without a lock of its own, so that organisations that race for the
    last slots may overshoot the global ceiling.
-/

namespace ExecutionControl

/-- A part of a program that a failing call to the coordination store ends. -/
abbrev Coord (α : Type) := ExceptT CoordError Program α

/-- Call the coordination store. -/
def Coord.call (c : CoordCall) : Coord c.Result := ExceptT.mk (Program.coord c)

/-- Run a part of a program and go on with its error if it fails. -/
def Coord.attempt {α : Type} (x : Coord α) : Coord (Except CoordError α) := ExceptT.lift x.run

/-- Admission with its ceilings. -/
structure Admission where
  config : AdmissionConfig
  cache : LimitCache

namespace Admission

/-! ### Stale slots -/

/-- The score below every other. -/
def lowestScore : Float := -1.0 / 0.0

/-- The score up to which slots are stale at `now`. -/
def cutoff (a : Admission) (now : Timestamp) : Float :=
  now.score - a.config.slotRetention.toSeconds

/-- Reclaim the stale slots of a set; says how many. -/
def purge (a : Admission) (key : String) (now : Timestamp) : Coord Nat :=
  Coord.call (.removeScores key lowestScore (a.cutoff now))

/-! ### Admitting -/

/-- Try to take a lock until it is free, a call fails, or the clock has reached the deadline.
    A wait that is not over after so many rounds is taken for endless. -/
def pollLock (a : Admission) (key token : String) (deadline : Moment) : Nat → Coord Bool
  | 0 => (Program.stop .endless : Program Bool)
  | rounds + 1 => do
    if ← Coord.call (.tryLock key token a.config.lockTtl) then return true
    else if (← (Program.clock : Program Moment)) ≥ deadline then return false
    else do
      (Program.sleep a.config.lockPollInterval : Program Unit)
      a.pollLock key token deadline rounds

/-- Take a lock, waiting for it if need be; says whether it was taken. The clock has a reading
    for every round: sleeps that are not empty bring it to the deadline before. -/
def acquireLock (a : Admission) (key token : String) (rounds : Nat := Moment.bound) :
    Coord Bool := do
  let start ← (Program.clock : Program Moment)
  let deadline ← (Program.ofChecked (start.after a.config.lockWait) : Program Moment)
  a.pollLock key token deadline rounds

/-- Check both ceilings and take a slot in both sets, under the lock. -/
def checkAndOccupy (a : Admission) (c : ExecutionContext) (now : Timestamp) :
    Coord Decision := do
  let orgKey := Key.orgSlots c.orgId
  let _ ← a.purge orgKey now
  let _ ← a.purge Key.globalSlots now
  -- The ceiling is read after the count, under the lock that keeps the count from growing.
  let orgCount ← Coord.call (.cardinality orgKey)
  let orgLimit ← (a.cache.getLimit c.orgId : Program Nat)
  if orgCount ≥ orgLimit then
    return .rejected ⟨.orgLimitExceeded, orgCount, orgLimit⟩
  else do
    -- Admissions of other organisations may run between this count and the two slots below.
    let globalCount ← Coord.call (.cardinality Key.globalSlots)
    if globalCount ≥ a.config.globalLimit then do
      (Program.report (.globalLimitReached globalCount a.config.globalLimit) : Program Unit)
      return .rejected ⟨.globalLimitExceeded, globalCount, a.config.globalLimit⟩
    else do
      let _ ← Coord.call (.addMember orgKey c.executionId now.score)
      let _ ← Coord.call (.addMember Key.globalSlots c.executionId now.score)
      return .admitted false

/-- Let an execution in without a check, because the store failed. -/
def failOpen (e : CoordError) : Program Decision := do
  Program.report (.admittedUnchecked e)
  return .admitted true

/-- Decide under the lock of the organisation, which is given back whatever happens. -/
def decideLocked (a : Admission) (c : ExecutionContext) (now : Timestamp) (token : String) :
    Program Decision := do
  let outcome ← (a.checkAndOccupy c now).run
  -- A lock that cannot be given back frees itself once its time to live is over.
  let _ ← Program.coord (.unlock (Key.orgLock c.orgId) token)
  match outcome with
  | .ok decision => return decision
  | .error e => failOpen e

/-- Admit or reject an execution at `now`. -/
def tryAdmitAt (a : Admission) (c : ExecutionContext) (now : Timestamp) :
    Program (Except AdmissionError Decision) := do
  let token ← Program.token
  match ← (a.acquireLock (Key.orgLock c.orgId) token).run with
  | .ok true => .ok <$> a.decideLocked c now token
  | .ok false => return .error (.lockNotAcquired c.orgId a.config.lockWait)
  | .error e => .ok <$> failOpen e

/-- Admit or reject an execution at the time of the wall clock. -/
def tryAdmit (a : Admission) (c : ExecutionContext) :
    Program (Except AdmissionError Decision) := do
  a.tryAdmitAt c (← Program.time)

/-! ### Releasing -/

/-- Give the slots of an execution back; says whether it held any. Both sets are tried
    even if the first call fails. -/
def release (orgId executionId : String) : Program Bool := do
  let org ← Program.coord (.removeMember (Key.orgSlots orgId) executionId)
  let all ← Program.coord (.removeMember Key.globalSlots executionId)
  match org, all with
  | .ok inOrg, .ok inAll => return inOrg || inAll
  | .error e, _ => do
    Program.report (.releaseFailed orgId executionId e)
    return false
  | .ok _, .error e => do
    Program.report (.releaseFailed orgId executionId e)
    return false

/-! ### Looking and sweeping -/

/-- The occupancy at `now`, after stale slots are reclaimed. -/
def usageAt (a : Admission) (orgId : String) (now : Timestamp) : Coord Usage := do
  let _ ← a.purge (Key.orgSlots orgId) now
  let _ ← a.purge Key.globalSlots now
  let orgCount ← Coord.call (.cardinality (Key.orgSlots orgId))
  let globalCount ← Coord.call (.cardinality Key.globalSlots)
  let orgLimit ← (a.cache.getLimit orgId : Program Nat)
  return ⟨orgId, orgCount, orgLimit, globalCount, a.config.globalLimit⟩

/-- The occupancy at the time of the wall clock. -/
def usage (a : Admission) (orgId : String) : Coord Usage := do
  a.usageAt orgId (← (Program.time : Program Timestamp))

/-- Reclaim the stale slots of one organisation; says how many. -/
def sweepOrgAt (a : Admission) (orgId : String) (now : Timestamp) : Coord Nat :=
  a.purge (Key.orgSlots orgId) now

/-- Reclaim the stale slots under some keys. A set that fails is left out, unless the
    store cannot be reached. -/
def sweepSets (a : Admission) (now : Timestamp) : List String → SweepReport → Coord SweepReport
  | [], report => return report
  | key :: rest, report =>
    if (Key.orgOfSlots? key).isNone then a.sweepSets now rest report
    else do
      let report := { report with orgSets := report.orgSets + 1 }
      match ← Coord.attempt (a.purge key now) with
      | .ok n => a.sweepSets now rest { report with reclaimed := report.reclaimed + n }
      | .error e =>
        if e.isUnavailable then throw e
        else do
          (Program.report (.slotSetSkipped key e) : Program Unit)
          a.sweepSets now rest report

/-- Reclaim the stale slots of every organisation and of the whole system. -/
def sweepAllAt (a : Admission) (now : Timestamp) : Coord SweepReport := do
  let keys ← Coord.call (.scan Key.orgSlotsStart)
  let report ← a.sweepSets now keys {}
  let n ← a.purge Key.globalSlots now
  return { report with reclaimed := report.reclaimed + n }

/-- Reclaim all stale slots at the time of the wall clock. -/
def sweepAll (a : Admission) : Coord SweepReport := do
  a.sweepAllAt (← (Program.time : Program Timestamp))

end Admission

end ExecutionControl
