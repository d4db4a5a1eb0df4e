import ExecutionControl.Operator
import ExecutionControl.Proofs.Requests

/-! # What admission asks for one organisation

    Every operation that is for one organisation asks for little else than what is its own:
    its slots, its lock, its cached limit and its durable row (`Request.ForOrg`). The slots
    of the whole system are all that it shares with others.
-/

namespace ExecutionControl

open Program

/-- The requests that an operation for an organisation makes. -/
def Request.ForOrg (orgId : String) : Request → Prop
  | .coord (.addMember key ..) => key = Key.orgSlots orgId ∨ key = Key.globalSlots
  | .coord (.removeMember key _) => key = Key.orgSlots orgId ∨ key = Key.globalSlots
  | .coord (.cardinality key) => key = Key.orgSlots orgId ∨ key = Key.globalSlots
  | .coord (.removeScores key ..) => key = Key.orgSlots orgId ∨ key = Key.globalSlots
  | .coord (.tryLock key ..) => key = Key.orgLock orgId
  | .coord (.unlock key _) => key = Key.orgLock orgId
  | .coord (.getText key) => key = Key.limitCache orgId
  | .coord (.setText key ..) => key = Key.limitCache orgId
  | .coord (.delete key) => key = Key.limitCache orgId
  | .coord _ => False
  | .limits (.get org) => org = orgId
  | .limits (.upsert org _) => org = orgId
  | .limits (.delete org) => org = orgId
  | .limits .list => False
  | .files _ => False
  | _ => True

/-! ### Limits -/

namespace LimitCache

variable (c : LimitCache) (orgId : String)

theorem asks_load (reachable : Bool) : (c.load orgId reachable).Asks (Request.ForOrg orgId) := by
  unfold load
  refine (asks_limits (by rfl)).bind fun reply => ?_
  cases reply with
  | ok row =>
    cases reachable with
    | true => exact (asks_coord (by rfl)).bind fun _ => asks_pure _
    | false => exact asks_pure _
  | error e => exact (asks_request (by trivial)).bind fun _ => asks_pure _

theorem asks_getLimit : (c.getLimit orgId).Asks (Request.ForOrg orgId) := by
  unfold getLimit
  refine (asks_coord (by rfl)).bind fun reply => ?_
  cases reply with
  | error e => exact (asks_request (by trivial)).bind fun _ => c.asks_load orgId false
  | ok text =>
    cases text with
    | none => exact c.asks_load orgId true
    | some raw =>
      cases hcached : cachedLimit? raw with
      | some n =>
        simp only [hcached]
        exact asks_pure n
      | none =>
        simp only [hcached]
        exact (asks_request (by trivial)).bind fun _ => c.asks_load orgId true

theorem asks_invalidate : (c.invalidate orgId).Asks (Request.ForOrg orgId) := by
  unfold invalidate
  refine (asks_coord (by rfl)).bind fun reply => ?_
  cases reply with
  | ok existed => exact asks_pure existed
  | error e => exact (asks_request (by trivial)).bind fun _ => asks_pure _

theorem asks_setLimit (limit : Nat) : (c.setLimit orgId limit).Asks (Request.ForOrg orgId) := by
  unfold setLimit
  refine (asks_limits (by rfl)).bind fun reply => ?_
  cases reply with
  | ok row => exact (c.asks_invalidate orgId).bind fun _ => asks_pure _
  | error e => exact asks_pure _

theorem asks_deleteLimit : (c.deleteLimit orgId).Asks (Request.ForOrg orgId) := by
  unfold deleteLimit
  refine (asks_limits (by rfl)).bind fun reply => ?_
  cases reply with
  | ok existed => exact (c.asks_invalidate orgId).bind fun _ => asks_pure _
  | error e => exact asks_pure _

end LimitCache

theorem Operator.asks_clearOrgCache (orgId : String) :
    (Operator.clearOrgCache orgId).run.Asks (Request.ForOrg orgId) :=
  Asks.map (asks_run_call (by rfl))

/-! ### Slots -/

namespace Admission

variable (a : Admission) (orgId : String) (c : ExecutionContext) (now : Timestamp)

theorem asks_purge {P : Request → Prop} {key : String}
    (h : P (.coord (.removeScores key lowestScore (a.cutoff now)))) :
    (a.purge key now).run.Asks P :=
  asks_run_call h

theorem asks_pollLock (token : String) (deadline : Moment) (rounds : Nat) :
    (a.pollLock (Key.orgLock orgId) token deadline rounds).run.Asks (Request.ForOrg orgId) := by
  induction rounds with
  | zero => exact Asks.run_lift (asks_stop trivial)
  | succ rounds ih =>
    unfold pollLock
    refine Asks.run_bind (asks_run_call (by rfl)) fun taken => ?_
    cases taken with
    | true => exact asks_run_pure true
    | false =>
      refine Asks.run_bind (Asks.run_lift (asks_request (by trivial))) fun clock => ?_
      show Program.Asks _ (ExceptT.run (if clock ≥ deadline then _ else _))
      split
      · exact asks_run_pure false
      · exact Asks.run_bind (Asks.run_lift (asks_request (by trivial))) fun _ => ih

theorem asks_acquireLock (token : String) :
    (a.acquireLock (Key.orgLock orgId) token).run.Asks (Request.ForOrg orgId) :=
  Asks.run_bind (Asks.run_lift (asks_request (by trivial))) fun _ =>
    Asks.run_bind (Asks.run_lift (asks_ofChecked fun _ => trivial)) fun _ =>
      a.asks_pollLock orgId _ _ _

theorem asks_checkAndOccupy :
    (a.checkAndOccupy c now).run.Asks (Request.ForOrg c.orgId) := by
  unfold checkAndOccupy
  refine Asks.run_bind (a.asks_purge now (.inl rfl)) fun _ => ?_
  refine Asks.run_bind (a.asks_purge now (.inr rfl)) fun _ => ?_
  refine Asks.run_bind (asks_run_call (.inl rfl)) fun orgCount => ?_
  refine Asks.run_bind (Asks.run_lift (a.cache.asks_getLimit c.orgId)) fun orgLimit => ?_
  split
  · exact asks_run_pure _
  · refine Asks.run_bind (asks_run_call (.inr rfl)) fun globalCount => ?_
    split
    · exact Asks.run_bind (Asks.run_lift (asks_request (by trivial))) fun _ => asks_run_pure _
    · refine Asks.run_bind (asks_run_call (.inl rfl)) fun _ => ?_
      exact Asks.run_bind (asks_run_call (.inr rfl)) fun _ => asks_run_pure _

theorem asks_failOpen (e : CoordError) : (failOpen e).Asks (Request.ForOrg orgId) :=
  (asks_request (by trivial)).bind fun _ => asks_pure _

theorem asks_decideLocked (token : String) :
    (a.decideLocked c now token).Asks (Request.ForOrg c.orgId) := by
  unfold decideLocked
  refine (a.asks_checkAndOccupy c now).bind fun outcome => ?_
  refine (asks_coord (by rfl)).bind fun _ => ?_
  cases outcome with
  | ok decision => exact asks_pure decision
  | error e => exact asks_failOpen c.orgId e

theorem asks_tryAdmitAt : (a.tryAdmitAt c now).Asks (Request.ForOrg c.orgId) := by
  unfold tryAdmitAt
  refine (asks_request (by trivial)).bind fun token => ?_
  refine (a.asks_acquireLock c.orgId token).bind fun taken => ?_
  match taken with
  | .ok true => exact (a.asks_decideLocked c now token).map
  | .ok false => exact asks_pure _
  | .error e => exact (asks_failOpen c.orgId e).map

theorem asks_tryAdmit : (a.tryAdmit c).Asks (Request.ForOrg c.orgId) :=
  (asks_request (by trivial)).bind fun now => a.asks_tryAdmitAt c now

theorem asks_release (executionId : String) :
    (release orgId executionId).Asks (Request.ForOrg orgId) := by
  unfold release
  refine (asks_coord (.inl rfl)).bind fun org => ?_
  refine (asks_coord (.inr rfl)).bind fun all => ?_
  match org, all with
  | .ok inOrg, .ok inAll => exact asks_pure _
  | .error e, _ => exact (asks_request (by trivial)).bind fun _ => asks_pure _
  | .ok _, .error e => exact (asks_request (by trivial)).bind fun _ => asks_pure _

theorem asks_usageAt : (a.usageAt orgId now).run.Asks (Request.ForOrg orgId) := by
  unfold usageAt
  refine Asks.run_bind (a.asks_purge now (.inl rfl)) fun _ => ?_
  refine Asks.run_bind (a.asks_purge now (.inr rfl)) fun _ => ?_
  refine Asks.run_bind (asks_run_call (.inl rfl)) fun orgCount => ?_
  refine Asks.run_bind (asks_run_call (.inr rfl)) fun globalCount => ?_
  exact Asks.run_bind (Asks.run_lift (a.cache.asks_getLimit orgId)) fun _ => asks_run_pure _

theorem asks_usage : (a.usage orgId).run.Asks (Request.ForOrg orgId) :=
  Asks.run_bind (Asks.run_lift (asks_request (by trivial))) fun now => a.asks_usageAt orgId now

theorem asks_sweepOrgAt : (a.sweepOrgAt orgId now).run.Asks (Request.ForOrg orgId) :=
  a.asks_purge now (.inl rfl)

end Admission

end ExecutionControl
