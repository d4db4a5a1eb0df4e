import ExecutionControl.Proofs.Admission.Requests
import ExecutionControl.Proofs.KeyFamilies
import ExecutionControl.Proofs.Limits.Changes

/-! # Isolation of organisations

    All operations that are for one organisation, as data, and what they leave of another:
    everything but the slots of the whole system. Nothing is assumed of the names of the
    organisations, of the state, or of which calls fail (`tenants_isolated`).

    A request for one organisation names keys of its own or the key of the slots of the whole
    system, none of which is a key of another organisation or of an execution
    (`Request.ForOrg.spares`). So every single request leaves the other as it is
    (`Untouched.step`).
-/

namespace ExecutionControl

/-! ### Operations -/

/-- One operation that is for an organisation. -/
inductive TenantOperation where
  | tryAdmit (c : ExecutionContext) (now : Timestamp)
  | release (orgId executionId : String)
  | usage (orgId : String) (now : Timestamp)
  | sweep (orgId : String) (now : Timestamp)
  | getLimit (orgId : String)
  | setLimit (orgId : String) (limit : Nat)
  | deleteLimit (orgId : String)
  | invalidate (orgId : String)
  | clearCache (orgId : String)
  deriving DecidableEq

namespace TenantOperation

/-- The organisation that an operation is for. -/
def orgId : TenantOperation → String
  | .tryAdmit c _ => c.orgId
  | .release orgId _ => orgId
  | .usage orgId _ => orgId
  | .sweep orgId _ => orgId
  | .getLimit orgId => orgId
  | .setLimit orgId _ => orgId
  | .deleteLimit orgId => orgId
  | .invalidate orgId => orgId
  | .clearCache orgId => orgId

/-- What an operation gives back. -/
abbrev Result : TenantOperation → Type
  | .tryAdmit .. => Except AdmissionError Decision
  | .release .. => Bool
  | .usage .. => Except CoordError Usage
  | .sweep .. => Except CoordError Nat
  | .getLimit _ => Nat
  | .setLimit .. => Except StoreError OrgLimit
  | .deleteLimit _ => Except StoreError Bool
  | .invalidate _ => Bool
  | .clearCache _ => Except OperatorError Bool

end TenantOperation

namespace Operator

/-- The program of an operation. -/
def tenantProgram (o : Operator) : (op : TenantOperation) → Program op.Result
  | .tryAdmit c now => o.admission.tryAdmitAt c now
  | .release orgId executionId => Admission.release orgId executionId
  | .usage orgId now => (o.admission.usageAt orgId now).run
  | .sweep orgId now => (o.admission.sweepOrgAt orgId now).run
  | .getLimit orgId => o.admission.cache.getLimit orgId
  | .setLimit orgId limit => o.admission.cache.setLimit orgId limit
  | .deleteLimit orgId => o.admission.cache.deleteLimit orgId
  | .invalidate orgId => o.admission.cache.invalidate orgId
  | .clearCache orgId => (Operator.clearOrgCache orgId).run

/-- Every operation keeps to its own organisation. -/
theorem asks_tenantProgram (o : Operator) (op : TenantOperation) :
    (o.tenantProgram op).Asks (Request.ForOrg op.orgId) := by
  cases op with
  | tryAdmit c now => exact o.admission.asks_tryAdmitAt c now
  | release orgId executionId => exact Admission.asks_release orgId executionId
  | usage orgId now => exact o.admission.asks_usageAt orgId now
  | sweep orgId now => exact o.admission.asks_sweepOrgAt orgId now
  | getLimit orgId => exact o.admission.cache.asks_getLimit orgId
  | setLimit orgId limit => exact o.admission.cache.asks_setLimit orgId limit
  | deleteLimit orgId => exact o.admission.cache.asks_deleteLimit orgId
  | invalidate orgId => exact o.admission.cache.asks_invalidate orgId
  | clearCache orgId => exact asks_clearOrgCache orgId

end Operator

/-! ### What is left alone -/

variable {F : Faults} {s s' s'' : Shared} {r : Request} {orgId other key : String}

/-- A request for an organisation leaves every key alone that is not one of its own and not
    the key of the slots of the whole system. -/
theorem Request.ForOrg.spares (h : r.ForOrg orgId) (hslots : key ≠ Key.orgSlots orgId)
    (hglobal : key ≠ Key.globalSlots) (hlock : key ≠ Key.orgLock orgId)
    (hcache : key ≠ Key.limitCache orgId) : r.Spares key := by
  have hset : ∀ {k : String}, k = Key.orgSlots orgId ∨ k = Key.globalSlots → key ≠ k := by
    rintro k (rfl | rfl)
    · exact hslots
    · exact hglobal
  rintro call rfl
  cases call with
  | addMember k member score => exact ⟨hset h, by simp⟩
  | removeMember k member => exact ⟨hset h, by simp⟩
  | cardinality k => exact ⟨hset h, by simp⟩
  | removeScores k low high => exact ⟨hset h, by simp⟩
  | tryLock k token ttl => exact ⟨fun heq => hlock (heq.trans h), by simp⟩
  | unlock k token => exact ⟨fun heq => hlock (heq.trans h), by simp⟩
  | getText k => exact ⟨fun heq => hcache (heq.trans h), by simp⟩
  | setText k value ttl => exact ⟨fun heq => hcache (heq.trans h), by simp⟩
  | delete k => exact ⟨fun heq => hcache (heq.trans h), by simp⟩
  | _ => exact h.elim

/-- Everything that an organisation has of its own is as it was, deadlines included, and so
    are the records of all executions. -/
structure Untouched (orgId : String) (s s' : Shared) : Prop where
  slots : s'.coord.entries[Key.orgSlots orgId]? = s.coord.entries[Key.orgSlots orgId]?
  lock : s'.coord.entries[Key.orgLock orgId]? = s.coord.entries[Key.orgLock orgId]?
  cachedLimit : s'.coord.entries[Key.limitCache orgId]? = s.coord.entries[Key.limitCache orgId]?
  durableLimit : s'.limits.get orgId = s.limits.get orgId
  records : ∀ workflowId executionId,
    s'.coord.entries[Key.execution workflowId executionId]? =
      s.coord.entries[Key.execution workflowId executionId]?

namespace Untouched

theorem refl (orgId : String) (s : Shared) : Untouched orgId s s :=
  ⟨rfl, rfl, rfl, rfl, fun _ _ => rfl⟩

theorem trans (h : Untouched orgId s s') (h' : Untouched orgId s' s'') :
    Untouched orgId s s'' where
  slots := h'.slots.trans h.slots
  lock := h'.lock.trans h.lock
  cachedLimit := h'.cachedLimit.trans h.cachedLimit
  durableLimit := h'.durableLimit.trans h.durableLimit
  records workflowId executionId :=
    (h'.records workflowId executionId).trans (h.records workflowId executionId)

/-- No request for one organisation writes the row of another. -/
theorem durableLimit_step {reply : Checked r.Reply} (hs : s.Serves F r reply s')
    (hr : r.ForOrg orgId) (hother : other ≠ orgId) : s'.limits.get other = s.limits.get other := by
  cases reply with
  | error o => rw [hs.stopped_limits.2]
  | ok reply =>
    rcases hs.row_eq_or 0 other with hsame | hwrites
    · exact hsame
    · cases hwrites with
      | upsert hx => cases hx; exact absurd hr hother
      | delete hx => cases hx; exact absurd hr hother

/-- A request for one organisation leaves another as it is. -/
theorem step {reply : Checked r.Reply} (hs : s.Serves F r reply s') (hr : r.ForOrg orgId)
    (hother : other ≠ orgId) : Untouched other s s' := by
  have hslots : Key.orgSlots other ≠ Key.orgSlots orgId := Key.orgSlots_injective.ne hother
  have hlock : Key.orgLock other ≠ Key.orgLock orgId := Key.orgLock_injective.ne hother
  have hcache : Key.limitCache other ≠ Key.limitCache orgId := Key.limitCache_injective.ne hother
  constructor
  case slots =>
    exact hs.entries_of_spares (hr.spares hslots (by simp) (Key.orgLock_ne_orgSlots _ _).symm
      (Key.limitCache_ne_orgSlots _ _).symm)
  case lock =>
    exact hs.entries_of_spares (hr.spares (by simp) (by simp) hlock
      (Key.limitCache_ne_orgLock _ _).symm)
  case cachedLimit => exact hs.entries_of_spares (hr.spares (by simp) (by simp) (by simp) hcache)
  case durableLimit => exact durableLimit_step hs hr hother
  case records =>
    intro workflowId executionId
    exact hs.entries_of_spares (hr.spares (by simp) (by simp) (by simp) (by simp))

end Untouched

/-! ### Isolation -/

namespace Operator

/-- Whatever the stores hold and whichever calls fail, and whether it ends with a value or
    with an overflow, an operation for one organisation leaves every other untouched. -/
theorem tenants_isolated (o : Operator) (op : TenantOperation) {out : Checked op.Result}
    {p : Point} (h : (o.tenantProgram op).Ends F ⟨s, []⟩ out p) (hother : other ≠ op.orgId) :
    Untouched other s p.shared :=
  h.keeps (o.asks_tenantProgram op)
    (fun _ _ _ _ huntouched hr hs => huntouched.trans (.step hs hr hother)) (.refl other s)

/-- An operation on an empty store or after others, with a ceiling of one for everybody, on
    stores that never fail. -/
def operateFor (op : TenantOperation) (s : Shared) : Checked op.Result × Point :=
  (Operator.tenantProgram ⟨.withCeilings 1 1⟩ op).run (Point.answer fun _ => none) ⟨s, []⟩

theorem operateFor_ends (op : TenantOperation) (s : Shared) :
    (Operator.tenantProgram ⟨.withCeilings 1 1⟩ op).Ends .any ⟨s, []⟩ (operateFor op s).1
      (operateFor op s).2 :=
  Program.ends_run (fun _ _ _ => trivial) _ _

/-- A ceiling is set for one organisation while an execution of another runs. -/
theorem tenants_isolated_beside_slot :
    ∃ (s : Shared) (out : _) (p : Point),
      (Operator.tenantProgram ⟨.withCeilings 1 1⟩ (.setLimit "a" 5)).Ends .any ⟨s, []⟩ out p ∧
      Untouched "b" s p.shared ∧ (s.coord.slots s.now (Key.orgSlots "b")).size = 1 ∧
      (p.shared.limits.get "a").map (·.concurrentRequestLimit) = some 5 := by
  have hslot : ∃ s, s = (operateFor (.tryAdmit ⟨"b", "w", "e", "c"⟩ default) {}).2.shared ∧
      (s.coord.slots s.now (Key.orgSlots "b")).size = 1 ∧
      ((operateFor (.setLimit "a" 5) s).2.shared.limits.get "a").map
        (·.concurrentRequestLimit) = some 5 := by
    exact ⟨_, rfl, by decide +kernel⟩
  obtain ⟨s, -, hsize, hrow⟩ := hslot
  have hends := operateFor_ends (.setLimit "a" 5) s
  exact ⟨s, _, _, hends, tenants_isolated _ _ hends (by decide), hsize, hrow⟩

end Operator

end ExecutionControl
