import ExecutionControl.Proofs.Admission.Lock
import Mathlib.Data.Nat.Basic

/-! # Taking slots in time

    The lock of an organisation protects the slots only while its time to live is not
    over. An admission is prompt if it asks for its last slot before that; a prompt
    admission that asks for a slot still holds the lock (`Holding.of_add`).

    `Move.size_slots` says how a set of slots can grow: by one, where an admission takes a
    slot.
-/

namespace ExecutionControl

/-! ### Prompt admissions -/

/-- Whether an answered request took a lock. -/
def Exchange.takesLock : Exchange → Bool
  | ⟨_, .coord (.tryLock ..), .ok true⟩ => true
  | _ => false

/-- Whether an answered request asked for a slot. -/
def Exchange.asksForSlot : Exchange → Bool
  | ⟨_, .coord (.addMember ..), _⟩ => true
  | _ => false

/-- Slots are asked for before the time to live of the lock taken before is over. -/
def Log.Prompt (ttl : Duration) (log : Log) : Prop :=
  log.Pairwise fun later earlier =>
    earlier.takesLock → later.asksForSlot → later.time < earlier.time + ttl.nanos

instance (ttl : Duration) (log : Log) : Decidable (log.Prompt ttl) :=
  inferInstanceAs (Decidable (log.Pairwise _))

/-- All admissions are prompt. -/
def Admission.Prompt (a : Admission) (σ : Scene a.repertoire) : Prop :=
  ∀ w ∈ σ.workers, w.log.Prompt a.config.lockTtl

instance (a : Admission) (σ : Scene a.repertoire) : Decidable (a.Prompt σ) :=
  inferInstanceAs (Decidable (∀ w ∈ σ.workers, _))

variable {a : Admission} {op : Operation} {s s' : Shared} {g : Stage} {x : Exchange}
  {σ σ' : Scene a.repertoire}

/-- Only taking a lock starts the time for which it is held. -/
theorem Stage.since_after {t : Moment} (h : (g.after a x).since = some t) :
    g.since = some t ∨ x.time = t ∧ x.takesLock := by
  unfold Stage.after at h
  split at h
  · exact Or.inl h
  · rename_i t' key token ttl
    obtain rfl : t' = t := Option.some.inj h
    exact Or.inr ⟨rfl, rfl⟩
  · cases h
  · split at h <;> exact Or.inl h
  · split at h <;> exact Or.inl h
  · split at h <;> exact Or.inl h
  · exact Or.inl h
  · exact Or.inl h
  · exact Or.inl h

/-- A lock that is held was taken by a request in the log. -/
theorem Stage.exists_taken {log : Log} {t : Moment}
    (h : (a.discipline.stage op log).since = some t) :
    ∃ x ∈ log, x.time = t ∧ x.takesLock := by
  induction log with
  | nil => cases h
  | cons x log ih =>
    rcases Stage.since_after h with hbefore | ⟨ht, hx⟩
    · obtain ⟨y, hy, hyt⟩ := ih hbefore
      exact ⟨y, List.mem_cons_of_mem x hy, hyt⟩
    · exact ⟨x, List.mem_cons_self, ht, hx⟩

/-- A prompt admission that asks for a slot holds the lock of its organisation. -/
theorem Holding.of_add {i : Nat} {w : Worker a.repertoire} {c : ExecutionContext}
    {n : Timestamp} {t : Moment} {key : String} (hm : σ.Moves σ' i w x) (hprompt : a.Prompt σ')
    (hop : w.op = .tryAdmit c n) (hsince : (a.discipline.stageOf w).since = some t)
    (hx : x.AddsTo key) : Holding a σ'.shared.now w c t := by
  obtain ⟨y, hy, rfl, htaken⟩ := Stage.exists_taken hsince
  obtain ⟨left, hworkers⟩ := hm.workers
  have hlog : Log.Prompt a.config.lockTtl (x :: w.log) := by
    obtain ⟨hi, _⟩ := List.getElem?_eq_some_iff.mp hm.worker
    have hmem : (⟨w.op, left, x :: w.log⟩ : Worker a.repertoire) ∈ σ'.workers := by
      rw [hworkers]
      exact List.mem_set hi _
    exact hprompt _ hmem
  -- The request that took the lock and this one stand in one log.
  refine ⟨⟨n, hop⟩, hsince, ?_⟩
  have hasks : x.asksForSlot := by
    obtain ⟨_, _, _, _, rfl⟩ := hx
    rfl
  have hbefore := (List.pairwise_cons.mp hlog).1 y hy htaken hasks
  rwa [hm.time] at hbefore

/-! ### How a set of slots grows -/

/-- Time does not add slots. -/
theorem size_slots_later (coord : CoordStore) {now later : Moment} (h : now ≤ later)
    (key : String) : (coord.slots later key).size ≤ (coord.slots now key).size := by
  rcases CoordStore.slots_eq_or_empty h key with heq | hempty
  · rw [heq]
  · rw [hempty]
    exact Nat.zero_le _

/-- A set of slots grows only where an admission takes a slot in it, and then by one. -/
theorem Move.size_slots {key : String} (h : Move a op s g x s') (hkey : Key.IsSlots key) :
    (s'.coord.slots s'.now key).size ≤ (s.coord.slots s'.now key).size ∨
      x.AddsTo key ∧
        (s'.coord.slots s'.now key).size ≤ (s.coord.slots s'.now key).size + 1 := by
  cases h with
  | draw _ _ _ _ hcoord _ => exact Or.inl (by rw [hcoord])
  -- Locks and cached limits lie under other keys than slots.
  | lock c _ _ _ _ _ hcoord _ =>
    left
    rw [hcoord, CoordStore.slots_congr (CoordStore.entries_put_of_ne (hkey.ne_orgLock c.orgId))]
  | unlock c _ _ _ _ hcoord _ =>
    left
    have hne := hkey.ne_orgLock c.orgId
    rcases hcoord with hcoord | ⟨_, hcoord⟩ | ⟨_, hcoord⟩
    · rw [hcoord]
    · rw [hcoord, CoordStore.slots_congr (CoordStore.entries_drop_of_ne hne)]
    · rw [hcoord, CoordStore.slots_congr (CoordStore.entries_settle_of_ne hne)]
  | count _ _ hcoord _ => exact Or.inl (by rw [hcoord])
  | add k _ _ _ hx hcoord _ =>
    rcases hcoord with hcoord | hcoord
    · exact Or.inl (by rw [hcoord])
    · by_cases hk : key = k
      · subst hk
        refine Or.inr ⟨hx, ?_⟩
        rw [hcoord, CoordStore.slots_putMembers CoordStore.lasts_self]
        exact Std.ExtTreeMap.size_insert_le
      · left
        rw [hcoord, CoordStore.slots_congr (CoordStore.entries_putMembers_of_ne hk)]
  | free k m _ hm hcoord _ =>
    left
    by_cases hk : key = k
    · subst hk
      rw [hcoord, CoordStore.slots_putMembers CoordStore.lasts_self]
      exact hm
    · rw [hcoord, CoordStore.slots_congr (CoordStore.entries_putMembers_of_ne hk)]
  | other hcoord _ =>
    left
    rw [CoordStore.slots_congr (hcoord key hkey.ne_limitCache)]

end ExecutionControl
