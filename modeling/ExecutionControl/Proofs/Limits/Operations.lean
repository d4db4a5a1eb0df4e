import ExecutionControl.Operator
import ExecutionControl.Proofs.Admission.Operations

/-! # The operations on limits

    Every operation that reads, writes or drops the limit of an organisation, as data, and
    what each of them asks of the services (`LimitOperation.Permits`) and has asked when it
    is over (`LimitOperation.Ended`). Both speak of the log of the operation alone, so that
    they hold whatever other operations do in between.

    A limit is cached only where it was read from the durable table by the same operation,
    and nothing is asked after that. Whatever else is asked of the coordination store only
    reads it or removes entries.
-/

namespace ExecutionControl

/-- One operation on limits. -/
inductive LimitOperation where
  | get (orgId : String)
  | set (orgId : String) (limit : Nat)
  | delete (orgId : String)
  | invalidate (orgId : String)
  | clearOrgCache (orgId : String)
  | clearAllCaches
  | clearCustomCaches
  deriving DecidableEq

namespace LimitOperation

/-- What an operation gives back. -/
abbrev Result : LimitOperation → Type
  | .get _ => Nat
  | .set .. => Except StoreError OrgLimit
  | .delete _ => Except StoreError Bool
  | .invalidate _ => Bool
  | .clearOrgCache _ => Except OperatorError Bool
  | .clearAllCaches => Except OperatorError Nat
  | .clearCustomCaches => Except OperatorError Nat

/-- Whether an operation writes the durable limit of an organisation. -/
def Writes (orgId : String) : LimitOperation → Prop
  | .set o _ => o = orgId
  | .delete o => o = orgId
  | _ => False

instance (orgId : String) (op : LimitOperation) : Decidable (op.Writes orgId) := by
  cases op <;> unfold Writes <;> infer_instance

end LimitOperation

/-- The program of an operation. -/
def Operator.limitProgram (o : Operator) : (op : LimitOperation) → Program op.Result
  | .get orgId => o.admission.cache.getLimit orgId
  | .set orgId limit => o.admission.cache.setLimit orgId limit
  | .delete orgId => o.admission.cache.deleteLimit orgId
  | .invalidate orgId => o.admission.cache.invalidate orgId
  | .clearOrgCache orgId => (Operator.clearOrgCache orgId).run
  | .clearAllCaches => Operator.clearAllCaches.run
  | .clearCustomCaches => o.clearCustomCaches.run

/-- All operations on limits. -/
abbrev Operator.limitRepertoire (o : Operator) : Repertoire :=
  ⟨LimitOperation, LimitOperation.Result, o.limitProgram⟩

/-- Whether a request caches a limit. -/
def Request.caches : Request → Bool
  | .coord (.setText ..) => true
  | _ => false

namespace LimitOperation

/-- Nothing was cached so far. -/
def Uncached (log : Log) : Prop := ∀ x ∈ log, x.request.caches = false

theorem Uncached.cons {log : Log} {t : Moment} {r : Request} {reply : r.Reply}
    (h : Uncached log) (hr : r.caches = false) : Uncached (⟨t, r, reply⟩ :: log) := by
  intro x hx
  rcases List.mem_cons.mp hx with rfl | hx
  · exact hr
  · exact h x hx

/-- The requests that an operation may make after others. -/
def Permits (c : LimitCache) (op : LimitOperation) (log : Log) (r : Request) : Prop :=
  Uncached log ∧ match r with
  | .coord (.getText _) => True
  | .coord (.setText key value ttl) => ∃ o row, op = .get o ∧ key = Key.limitCache o ∧
      ttl = some c.ttl ∧ log.Has (.limits (.get o)) (.ok row) ∧ value = toString (c.limitOfRow row)
  | .coord (.delete _) => True
  | .coord (.deletePattern _) => True
  | .coord (.scan _) => True
  | .coord _ => False
  | .limits (.upsert o n) => op = .set o n
  | .limits (.delete o) => op = .delete o
  | .limits _ => True
  | .report _ => True
  | _ => False

/-- What a lookup has done that gives back `v`. -/
inductive Looked (c : LimitCache) (orgId : String) (v : Nat) (log : Log) : Prop
  /-- The cached limit is used. -/
  | hit {t : Moment} {raw : String} (hraw : LimitCache.cachedLimit? raw = some v)
      (hlog : log = [⟨t, .coord (.getText (Key.limitCache orgId)), .ok (some raw)⟩])
  /-- The durable limit was read, and no look at it has failed. -/
  | read {row : Option OrgLimit} (hrow : log.Has (.limits (.get orgId)) (.ok row))
      (hanswered : ∀ e, ¬ log.Has (.limits (.get orgId)) (.error e)) (hv : v = c.limitOfRow row)
  /-- There is no cached limit that can be used, and the durable limit could not be read. -/
  | stoodIn {e : StoreError} (hfailed : log.Has (.limits (.get orgId)) (.error e))
      (hmiss : ∀ raw, log.Has (.coord (.getText (Key.limitCache orgId))) (.ok (some raw)) →
        LimitCache.cachedLimit? raw = none)
      (hlog : Uncached log) (hv : v = c.defaultLimit)

/-- The cached limit of an organisation was dropped last, or an attempt to drop it
    failed. -/
def Dropped (orgId : String) (log : Log) : Prop :=
  (∃ t existed past, log = ⟨t, .coord (.delete (Key.limitCache orgId)), .ok existed⟩ :: past) ∨
    ∃ e, log.Has (.coord (.delete (Key.limitCache orgId))) (.error e)

/-- What an operation has done that is over. -/
def Ended (c : LimitCache) : (op : LimitOperation) → op.Result → Log → Prop
  | .get o, v, log => Looked c o v log
  | .set o n, .ok row, log => log.Has (.limits (.upsert o n)) (.ok row) ∧ Dropped o log
  | .set o n, .error e, log => ∃ t, log = [⟨t, .limits (.upsert o n), .error e⟩]
  | .delete o, .ok existed, log => log.Has (.limits (.delete o)) (.ok existed) ∧ Dropped o log
  | .delete o, .error e, log => ∃ t, log = [⟨t, .limits (.delete o), .error e⟩]
  | _, _, _ => True

end LimitOperation

theorem Log.has_cons_self {log : Log} {t : Moment} {r : Request} {reply : r.Reply} :
    Log.Has (⟨t, r, reply⟩ :: log) r reply :=
  ⟨t, List.mem_cons_self⟩

theorem Log.Has.cons {log : Log} {x : Exchange} {r : Request} {reply : r.Reply}
    (h : log.Has r reply) : Log.Has (x :: log) r reply := by
  obtain ⟨t, ht⟩ := h
  exact ⟨t, List.mem_cons_of_mem _ ht⟩

/-- What was asked and answered by now was answered just now or before. -/
theorem Log.has_cons {log : Log} {x : Exchange} {r : Request} {reply : r.Reply}
    (h : Log.Has (x :: log) r reply) : x = ⟨x.time, r, reply⟩ ∨ log.Has r reply := by
  obtain ⟨t, ht⟩ := h
  rcases List.mem_cons.mp ht with heq | hmem
  · subst heq
    exact .inl rfl
  · exact .inr ⟨t, hmem⟩

namespace Operator

variable (o : Operator)

/-- The terms of an operation on limits. -/
abbrev watchingLimits (op : LimitOperation) : Terms Log :=
  Discipline.watching (LimitOperation.Permits o.admission.cache op)

/-- The discipline of the operations on limits. -/
abbrev limitDiscipline : Discipline o.limitRepertoire :=
  .ofLog (LimitOperation.Permits o.admission.cache)

open LimitOperation

variable {o} {orgId : String} {log : Log}

/-- Where nothing usable was cached the durable limit is read. -/
theorem keeps_load {reachable : Bool} (hlog : Uncached log)
    (hfirst : ∀ e, ¬ log.Has (.limits (.get orgId)) (.error e))
    (hmiss : ∀ raw, log.Has (.coord (.getText (Key.limitCache orgId))) (.ok (some raw)) →
      LimitCache.cachedLimit? raw = none) :
    (o.admission.cache.load orgId reachable).ensures (o.watchingLimits (.get orgId))
      (Looked o.admission.cache orgId) log := by
  simp only [LimitCache.load, Program.ensures_bind, Program.ensures_limits]
  refine ⟨⟨hlog, trivial⟩, fun t reply => ?_⟩
  cases reply with
  | error e =>
    simp only [Program.ensures_bind, Program.ensures_report]
    refine ⟨⟨hlog.cons rfl, trivial⟩, fun t' _ => ?_⟩
    refine .stoodIn (Log.has_cons_self.cons) (fun raw hraw => ?_) ((hlog.cons rfl).cons rfl) rfl
    obtain heq | hraw := Log.has_cons hraw
    · cases heq
    obtain heq | hraw := Log.has_cons hraw
    · cases heq
    exact hmiss raw hraw
  | ok row =>
    have hanswered : ∀ e, ¬ Log.Has (⟨t, .limits (.get orgId), .ok row⟩ :: log)
        (.limits (.get orgId)) (.error e) := by
      intro e hfailed
      obtain heq | hbefore := Log.has_cons hfailed
      · cases heq
      · exact hfirst e hbefore
    cases reachable with
    | false => exact .read Log.has_cons_self hanswered rfl
    | true =>
      simp only [if_true, Program.ensures_bind, Program.ensures_coord]
      refine ⟨⟨hlog.cons rfl, orgId, row, rfl, rfl, rfl, Log.has_cons_self, rfl⟩,
        fun t' _ => .read (Log.has_cons_self.cons) (fun e hfailed => ?_) rfl⟩
      obtain heq | hbefore := Log.has_cons hfailed
      · cases heq
      · exact hanswered e hbefore

theorem keeps_getLimit :
    (o.admission.cache.getLimit orgId).ensures (o.watchingLimits (.get orgId))
      (Looked o.admission.cache orgId) [] := by
  have hnone : Uncached [] := by simp [Uncached]
  simp only [LimitCache.getLimit, Program.ensures_bind, Program.ensures_coord]
  refine ⟨⟨hnone, trivial⟩, fun t reply => ?_⟩
  rcases reply with e | raw
  · simp only [Program.ensures_bind, Program.ensures_report]
    refine ⟨⟨hnone.cons rfl, trivial⟩, fun t' _ => ?_⟩
    refine keeps_load ((hnone.cons rfl).cons rfl) ?_ fun raw hraw => ?_
    · simp [Log.Has]
    · obtain ⟨_, hraw⟩ := hraw
      simp at hraw
  -- Nothing is cached, or a text that may be a limit.
  rcases raw with _ | raw
  · refine keeps_load (hnone.cons rfl) ?_ fun raw hraw => ?_
    · simp [Log.Has]
    · obtain ⟨_, hraw⟩ := hraw
      simp at hraw
  cases hcached : LimitCache.cachedLimit? raw with
  | some n =>
    simp only [hcached, Program.ensures_pure]
    exact .hit hcached rfl
  | none =>
    simp only [hcached, Program.ensures_bind, Program.ensures_report]
    refine ⟨⟨hnone.cons rfl, trivial⟩, fun t' _ => ?_⟩
    refine keeps_load ((hnone.cons rfl).cons rfl) ?_ fun raw' hraw => ?_
    · simp [Log.Has]
    obtain heq | hraw := Log.has_cons hraw
    · cases heq
    obtain ⟨_, hraw⟩ := hraw
    obtain ⟨-, rfl⟩ : _ ∧ raw' = raw := by simpa using hraw
    exact hcached

theorem keeps_invalidate {op : LimitOperation} {Q : Bool → Log → Prop} (hlog : Uncached log)
    (hQ : ∀ existed log', Dropped orgId log' → (∀ r reply, log.Has r reply → log'.Has r reply) →
      Uncached log' → Q existed log') :
    (o.admission.cache.invalidate orgId).ensures (o.watchingLimits op) Q log := by
  simp only [LimitCache.invalidate, Program.ensures_bind, Program.ensures_coord]
  refine ⟨⟨hlog, trivial⟩, fun t reply => ?_⟩
  cases reply with
  | ok existed =>
    exact hQ _ _ (.inl ⟨t, existed, log, rfl⟩) (fun _ _ h => h.cons) (hlog.cons rfl)
  | error e =>
    simp only [Program.ensures_bind, Program.ensures_report]
    refine ⟨⟨hlog.cons rfl, trivial⟩, fun t' _ => ?_⟩
    exact hQ _ _ (.inr ⟨e, Log.has_cons_self.cons⟩) (fun _ _ h => h.cons.cons)
      ((hlog.cons rfl).cons rfl)

theorem keeps_setLimit {n : Nat} :
    (o.admission.cache.setLimit orgId n).ensures (o.watchingLimits (.set orgId n))
      (Ended o.admission.cache (.set orgId n)) [] := by
  have hnone : Uncached [] := by simp [Uncached]
  simp only [LimitCache.setLimit, Program.ensures_bind, Program.ensures_limits]
  refine ⟨⟨hnone, rfl⟩, fun t reply => ?_⟩
  cases reply with
  | error e => exact ⟨t, rfl⟩
  | ok row =>
    simp only [Program.ensures_bind]
    exact keeps_invalidate (hnone.cons rfl) fun existed log' hdropped hlog' _ =>
      ⟨hlog' _ _ Log.has_cons_self, hdropped⟩

theorem keeps_deleteLimit :
    (o.admission.cache.deleteLimit orgId).ensures (o.watchingLimits (.delete orgId))
      (Ended o.admission.cache (.delete orgId)) [] := by
  have hnone : Uncached [] := by simp [Uncached]
  simp only [LimitCache.deleteLimit, Program.ensures_bind, Program.ensures_limits]
  refine ⟨⟨hnone, rfl⟩, fun t reply => ?_⟩
  cases reply with
  | error e => exact ⟨t, rfl⟩
  | ok existed =>
    simp only [Program.ensures_bind]
    exact keeps_invalidate (hnone.cons rfl) fun _ log' hdropped hlog' _ =>
      ⟨hlog' _ _ Log.has_cons_self, hdropped⟩

/-! ### Clearing -/

/-- A part of a program that caches nothing, whether it succeeds or fails. -/
abbrev ClearsBy (o : Operator) (op : LimitOperation) {α : Type} (x : Coord α) : Prop :=
  ∀ (Q : α → Log → Prop) (E : CoordError → Log → Prop) (log : Log), Uncached log →
    (∀ a log', Uncached log' → Q a log') → (∀ e log', Uncached log' → E e log') →
    x.ensures (o.watchingLimits op) Q E log

theorem clearsBy_delete {op : LimitOperation} (key : String) :
    o.ClearsBy op (Coord.call (.delete key)) := by
  intro Q E log hlog hQ hE
  simp only [Coord.ensures_call]
  refine ⟨⟨hlog, trivial⟩, fun t reply => ?_⟩
  cases reply with
  | ok existed => exact hQ existed _ (hlog.cons rfl)
  | error e => exact hE e _ (hlog.cons rfl)

theorem clearsBy_deleteKeys {op : LimitOperation} (keys : List String) (deleted : Nat) :
    o.ClearsBy op (deleteKeys keys deleted) := by
  induction keys generalizing deleted with
  | nil => exact fun Q E log hlog hQ _ => hQ _ _ hlog
  | cons key rest ih =>
    intro Q E log hlog hQ hE
    simp only [deleteKeys, Coord.ensures_bind]
    exact clearsBy_delete key _ _ _ hlog (fun _ log' hlog' => ih _ Q E log' hlog' hQ hE) hE

theorem clearsBy_clearAll {op : LimitOperation} :
    o.ClearsBy op (do
      match ← Coord.attempt (Coord.call (.deletePattern Key.limitCachePattern)) with
      | .ok n => return n
      | .error (.unsupported ..) => do
        let keys ← Coord.call (.scan Key.limitCacheStart)
        deleteKeys keys 0
      | .error e => throw e) := by
  intro Q E log hlog hQ hE
  simp only [Coord.ensures_bind, Coord.ensures_attempt, Coord.ensures_call]
  refine ⟨⟨hlog, trivial⟩, fun t reply => ?_⟩
  rcases reply with e | n
  · cases e with
    | unsupported backend operation =>
      simp only [Coord.ensures_bind, Coord.ensures_call]
      refine ⟨⟨hlog.cons rfl, trivial⟩, fun t' reply => ?_⟩
      cases reply with
      | ok keys => exact clearsBy_deleteKeys keys 0 Q E _ ((hlog.cons rfl).cons rfl) hQ hE
      | error e => exact hE e _ ((hlog.cons rfl).cons rfl)
    | _ => exact hE _ _ (hlog.cons rfl)
  · exact hQ n _ (hlog.cons rfl)

theorem keeps_onCoord {op : LimitOperation} {α : Type} {x : Coord α} (h : o.ClearsBy op x) :
    (onCoord x).run.ensures (o.watchingLimits op) (fun _ _ => True) [] := by
  show Program.ensures _ _ ((fun r => r.mapError OperatorError.coordination) <$> x.run) _
  rw [Program.ensures_map, Program.ensures_run]
  exact h _ _ _ (by simp [Uncached]) (fun _ _ _ => trivial) fun _ _ _ => trivial

theorem keeps_invalidateEach {op : LimitOperation} {Q : Unit → Log → Prop} (orgIds : List String)
    {log : Log} (hlog : Uncached log) (hQ : ∀ log', Uncached log' → Q () log') :
    (invalidateEach o.admission.cache orgIds).ensures (o.watchingLimits op) Q log := by
  induction orgIds generalizing log with
  | nil => exact hQ log hlog
  | cons orgId rest ih =>
    simp only [invalidateEach, Program.ensures_bind]
    exact keeps_invalidate hlog fun _ log' _ _ hlog' => ih hlog'

theorem keeps_clearCustomCaches :
    o.clearCustomCaches.run.ensures (o.watchingLimits .clearCustomCaches) (fun _ _ => True) [] := by
  have hnone : Uncached [] := by simp [Uncached]
  simp only [clearCustomCaches, onStore, ExceptT.run_bind, ExceptT.run_mk, Program.ensures_bind,
    Program.ensures_map, Program.ensures_limits]
  refine ⟨⟨hnone, trivial⟩, fun t reply => ?_⟩
  cases reply with
  | error e => trivial
  | ok rows =>
    have hok : Except.mapError OperatorError.store (.ok rows) = .ok rows := rfl
    simp only [hok, ExceptT.run_liftM, Program.ensures_bind, Program.ensures_map]
    exact keeps_invalidateEach _ (hnone.cons rfl) fun _ _ => trivial

/-- Every operation on limits keeps to the discipline, and has done what it should when it
    is over. -/
theorem limits_endsAs : o.limitDiscipline.EndsAs (Ended o.admission.cache) := by
  apply Discipline.endsAs_ofLog
  intro op
  cases op with
  | get orgId => exact keeps_getLimit
  | set orgId n => exact keeps_setLimit
  | delete orgId => exact keeps_deleteLimit
  | invalidate orgId => exact keeps_invalidate (by simp [Uncached]) fun _ _ _ _ _ => trivial
  | clearOrgCache orgId => exact keeps_onCoord (clearsBy_delete _)
  | clearAllCaches => exact keeps_onCoord clearsBy_clearAll
  | clearCustomCaches => exact keeps_clearCustomCaches

/-- An operator with the default limit 20. -/
def withTwenty : Operator := ⟨.withCeilings 20 100⟩

end Operator

end ExecutionControl
