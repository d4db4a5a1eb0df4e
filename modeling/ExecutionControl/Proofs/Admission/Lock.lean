import ExecutionControl.Proofs.Admission.Moves

/-! # The lock of an organisation

    An admission holds the lock from the time when it took it until it gives it back or the
    time to live of the lock is over, whichever comes first. `LockInv` ties the stages of
    the workers to the entries of the store: a lock that is held lies in the store under
    the token of its holder, and no token is used twice. It is preserved by every step, so
    that at most one admission of an organisation holds its lock (`LockInv.exclusive`).
-/

namespace ExecutionControl

open Admission

variable {a : Admission} {op : Operation} {s s' : Shared} {g : Stage} {x : Exchange}
  {F : Faults} {C : Scene a.repertoire → Prop} {σ σ' : Scene a.repertoire}

/-! ### What a move does to locks -/

/-- Slots are written past all locks. -/
theorem orgLock_putMembers {coord : CoordStore} {now : Moment} {key : String} {m : Members}
    (hkey : Key.IsSlots key) (o : String) :
    (coord.putMembers now key m).entries[Key.orgLock o]? = coord.entries[Key.orgLock o]? :=
  CoordStore.entries_putMembers_of_ne (hkey.ne_orgLock o).symm

/-- A lock changes only where it is free, or held under the token of the operation. -/
theorem Move.orgLock_entry (h : Move a op s g x s') (o : String) :
    s'.coord.entries[Key.orgLock o]? = s.coord.entries[Key.orgLock o]? ∨
      s.coord.live? s'.now (Key.orgLock o) = none ∨
      ∃ token, g.token = some token ∧ s.coord.isHeldBy s'.now (Key.orgLock o) token = true := by
  cases h with
  | draw token _ _ _ hcoord _ => exact Or.inl (by rw [hcoord])
  | lock c now token _ htoken hfree hcoord _ =>
    by_cases ho : Key.orgLock o = Key.orgLock c.orgId
    · rw [ho]
      exact Or.inr (Or.inl hfree)
    · rw [hcoord]
      exact Or.inl (CoordStore.entries_put_of_ne ho)
  | unlock c now token _ htoken hcoord _ =>
    by_cases ho : Key.orgLock o = Key.orgLock c.orgId
    · rw [ho]
      rcases hcoord with hcoord | ⟨hheld, _⟩ | ⟨_, hcoord⟩
      · exact Or.inl (by rw [hcoord])
      · exact Or.inr (Or.inr ⟨token, htoken, hheld⟩)
      · -- What is live is not dropped, whoever holds it.
        cases hlive : s.coord.live? s'.now (Key.orgLock c.orgId) with
        | none => exact Or.inr (Or.inl rfl)
        | some e =>
          left
          rw [hcoord, CoordStore.settle, hlive]
          rfl
    · left
      rcases hcoord with hcoord | ⟨_, hcoord⟩ | ⟨_, hcoord⟩
      · rw [hcoord]
      · rw [hcoord]
        exact CoordStore.entries_drop_of_ne ho
      · rw [hcoord]
        exact CoordStore.entries_settle_of_ne ho
  | count key _ hcoord _ => exact Or.inl (by rw [hcoord])
  | add key _ _ hkey _ hcoord _ =>
    left
    rcases hcoord with hcoord | hcoord
    · rw [hcoord]
    · rw [hcoord]
      exact orgLock_putMembers hkey o
  | free key m hkey _ hcoord _ =>
    left
    rw [hcoord]
    exact orgLock_putMembers hkey o
  | other hcoord _ =>
    exact Or.inl (hcoord _ fun p heq => Key.limitCache_ne_orgLock p o heq.symm)

/-- Where a token comes from: it was there, or it was drawn afresh. -/
theorem Move.token (h : Move a op s g x s') :
    (g.after a x).token = g.token ∨
      ∃ token, g.token = none ∧ (g.after a x).token = some token ∧ token ∉ s.drawn ∧
        token ∈ s'.drawn := by
  cases h with
  | draw token hnone hfresh hdrawn _ hg =>
    refine Or.inr ⟨token, hnone, by rw [hg], hfresh, ?_⟩
    rw [hdrawn]
    exact List.mem_cons_self
  | lock _ _ _ _ _ _ _ hg => exact Or.inl (by rw [hg])
  | unlock _ _ _ _ _ _ hg => exact Or.inl (by rw [hg])
  | count key _ _ hg =>
    left
    rw [hg]
    split <;> rfl
  | add key _ _ _ _ _ hg =>
    left
    rw [hg]
    split <;> rfl
  | free _ _ _ _ _ hg => exact Or.inl (by rw [hg])
  | other _ hg =>
    obtain ⟨l, hg⟩ := hg
    exact Or.inl (by rw [hg])

/-- Since when a lock is held: it was taken just now, or it was held before and all locks
    are as they were. -/
theorem Move.since {t : Moment} (h : Move a op s g x s') (ht : (g.after a x).since = some t) :
    (∃ c now token, op = .tryAdmit c now ∧ t = s'.now ∧ (g.after a x).token = some token ∧
      s'.coord.entries[Key.orgLock c.orgId]? =
        some ⟨.text token, some (t + a.config.lockTtl.nanos)⟩) ∨
      g.since = some t ∧ ((g.after a x).token = g.token ∨ g.token = none) ∧
        ∀ o, s'.coord.entries[Key.orgLock o]? = s.coord.entries[Key.orgLock o]? := by
  cases h with
  -- A token is drawn before any lock is taken, and so by somebody who had none.
  | draw token hnone _ _ hcoord hg =>
    rw [hg] at ht
    exact Or.inr ⟨ht, Or.inr hnone, fun o => by rw [hcoord]⟩
  | lock c now token hop htoken _ hcoord hg =>
    rw [hg] at ht ⊢
    obtain rfl : s'.now = t := Option.some.inj ht
    refine Or.inl ⟨c, now, token, hop, rfl, htoken, ?_⟩
    rw [hcoord]
    exact CoordStore.entries_put_self
  | unlock _ _ _ _ _ _ hg =>
    rw [hg] at ht
    cases ht
  | count key _ hcoord hg =>
    right
    rw [hg] at ht ⊢
    rw [hcoord]
    split at ht <;> exact ⟨ht, Or.inl (by split <;> rfl), fun o => rfl⟩
  | add key _ _ hkey _ hcoord hg =>
    right
    have hlocks : ∀ o, s'.coord.entries[Key.orgLock o]? = s.coord.entries[Key.orgLock o]? := by
      intro o
      rcases hcoord with hcoord | hcoord
      · rw [hcoord]
      · rw [hcoord]
        exact orgLock_putMembers hkey o
    rw [hg] at ht ⊢
    split at ht <;> exact ⟨ht, Or.inl (by split <;> rfl), hlocks⟩
  | free key m hkey _ hcoord hg =>
    rw [hg] at ht ⊢
    refine Or.inr ⟨ht, Or.inl rfl, fun o => ?_⟩
    rw [hcoord]
    exact orgLock_putMembers hkey o
  | other hcoord hg =>
    obtain ⟨l, hg⟩ := hg
    rw [hg] at ht ⊢
    refine Or.inr ⟨ht, Or.inl rfl, fun o => ?_⟩
    exact hcoord _ fun p heq => Key.limitCache_ne_orgLock p o heq.symm

/-! ### Holding a lock -/

/-- A worker holds the lock of its organisation since `t`: it is an admission that took
    the lock and did not give it back, and the time to live of the lock is not over. -/
structure Holding (a : Admission) (now : Moment) (w : Worker a.repertoire)
    (c : ExecutionContext) (t : Moment) : Prop where
  op : ∃ n, w.op = .tryAdmit c n
  since : (a.discipline.stageOf w).since = some t
  ttl : now < t + a.config.lockTtl.nanos

/-- A worker that holds a lock since some time held it before, if it had taken it then. -/
theorem Holding.of_same {now later : Moment} {v w : Worker a.repertoire} {c : ExecutionContext}
    {t : Moment} (h : Holding a later v c t) (hle : now ≤ later) (hop : v.op = w.op)
    (hsince : (a.discipline.stageOf w).since = (a.discipline.stageOf v).since) :
    Holding a now w c t where
  op := by
    rw [← hop]
    exact h.op
  since := hsince.trans h.since
  ttl := Nat.lt_of_le_of_lt hle h.ttl

theorem Holding.of_le {now later : Moment} {w : Worker a.repertoire} {c : ExecutionContext}
    {t : Moment} (hle : now ≤ later) (h : Holding a later w c t) : Holding a now w c t :=
  h.of_same hle rfl rfl

/-! ### The invariant -/

/-- The locks of the store are the locks that workers hold. -/
structure LockInv (a : Admission) (σ : Scene a.repertoire) : Prop where
  /-- Every token was drawn. -/
  drawn : ∀ (i : Nat) w token, σ.workers[i]? = some w →
    (a.discipline.stageOf w).token = some token → token ∈ σ.shared.drawn
  /-- No two workers have one token. -/
  distinct : ∀ (i j : Nat) v w token, σ.workers[i]? = some v → σ.workers[j]? = some w →
    (a.discipline.stageOf v).token = some token →
    (a.discipline.stageOf w).token = some token → i = j
  /-- A lock that is held lies in the store until its time to live is over. -/
  locked : ∀ (i : Nat) w c t, σ.workers[i]? = some w → Holding a σ.shared.now w c t →
    ∃ token, (a.discipline.stageOf w).token = some token ∧
      σ.shared.coord.entries[Key.orgLock c.orgId]? =
        some ⟨.text token, some (t + a.config.lockTtl.nanos)⟩

/-- At most one worker holds the lock of an organisation. -/
theorem LockInv.exclusive (h : LockInv a σ) {i j : Nat} {v w : Worker a.repertoire}
    {c d : ExecutionContext} {t u : Moment} (hv : σ.workers[i]? = some v)
    (hw : σ.workers[j]? = some w) (hhv : Holding a σ.shared.now v c t)
    (hhw : Holding a σ.shared.now w d u) (horg : c.orgId = d.orgId) : i = j := by
  obtain ⟨token, htoken, hentry⟩ := h.locked i v c t hv hhv
  obtain ⟨token', htoken', hentry'⟩ := h.locked j w d u hw hhw
  rw [horg, hentry'] at hentry
  obtain rfl : token' = token := by
    injection hentry with hentry
    injection hentry with htext _
    injection htext
  exact h.distinct i j v w token' hv hw htoken htoken'

/-! ### The invariant holds -/

theorem lockInv_start {s : Shared} : LockInv a ⟨s, []⟩ where
  drawn _ _ _ hw := nomatch hw
  distinct _ _ _ _ _ hv := nomatch hv
  locked _ _ _ _ hw := nomatch hw

theorem lockInv_quiet (h : LockInv a σ) (hq : σ.Quiet σ') : LockInv a σ' where
  drawn i v token hv htoken := by
    rw [hq.drawn]
    rcases hq.workers i v hv with ⟨_, hfresh⟩ | ⟨w, hw, _, _, hstage, _⟩
    · rw [hfresh] at htoken
      cases htoken
    · exact h.drawn i w token hw (hstage ▸ htoken)
  distinct i j v v' token hv hv' htoken htoken' := by
    rcases hq.workers i v hv with ⟨_, hfresh⟩ | ⟨w, hw, _, _, hstage, _⟩
    · rw [hfresh] at htoken
      cases htoken
    · rcases hq.workers j v' hv' with ⟨_, hfresh⟩ | ⟨w', hw', _, _, hstage', _⟩
      · rw [hfresh] at htoken'
        cases htoken'
      · exact h.distinct i j w w' token hw hw' (hstage ▸ htoken) (hstage' ▸ htoken')
  locked i v c t hv hhold := by
    rcases hq.workers i v hv with ⟨_, hfresh⟩ | ⟨w, hw, hop, _, hstage, _⟩
    · have hsince := hhold.since
      rw [hfresh] at hsince
      cases hsince
    · have hhold' : Holding a σ.shared.now w c t := hhold.of_same hq.now hop (by rw [hstage])
      rw [hstage, hq.coord]
      exact h.locked i w c t hw hhold'

/-- A lock that another worker holds stays where it is. -/
theorem LockInv.entry_of_moves (h : LockInv a σ) {i j : Nat} {v w : Worker a.repertoire}
    {c : ExecutionContext} {t : Moment} (hm : σ.Moves σ' i w x)
    (hv : σ.workers[j]? = some v) (hj : j ≠ i) (hhold : Holding a σ'.shared.now v c t) :
    σ'.shared.coord.entries[Key.orgLock c.orgId]? =
      σ.shared.coord.entries[Key.orgLock c.orgId]? := by
  obtain ⟨token, htoken, hentry⟩ := h.locked j v c t hv (hhold.of_le hm.now)
  have hlive : σ.shared.coord.live? σ'.shared.now (Key.orgLock c.orgId) =
      some ⟨.text token, some (t + a.config.lockTtl.nanos)⟩ := by
    refine CoordStore.live?_eq_some.mpr ⟨hentry, ?_⟩
    simpa [Entry.isLive] using hhold.ttl
  rcases hm.move.orgLock_entry c.orgId with hsame | hfree | ⟨token', htoken', hheld⟩
  · exact hsame
  · rw [hfree] at hlive
    cases hlive
  · -- The lock would be held under the token of the worker that moves.
    have heq : token = token' := by
      simpa [CoordStore.isHeldBy, CoordStore.datum?, hlive] using hheld
    rw [← heq] at htoken'
    exact absurd (h.distinct j i v w token hv hm.worker htoken htoken') hj

theorem lockInv_moves (h : LockInv a σ) {i : Nat} {w : Worker a.repertoire}
    (hm : σ.Moves σ' i w x) : LockInv a σ' where
  drawn j v token hv htoken := by
    rcases hm.worker_of hv with ⟨rfl, _, _, hstage⟩ | ⟨_, hv⟩
    · rw [hstage] at htoken
      rcases hm.move.token with hsame | ⟨token', _, hnew, _, hmem⟩
      · exact hm.drawn (h.drawn j w token hm.worker (hsame ▸ htoken))
      · rw [hnew] at htoken
        cases htoken
        exact hmem
    · exact hm.drawn (h.drawn j v token hv htoken)
  distinct j k u v token hu hv htu htv := by
    -- A token that the moving worker draws was not there before.
    have hother : ∀ (k : Nat) v, σ.workers[k]? = some v → k ≠ i →
        (a.discipline.stageOf v).token = some token →
        ((a.discipline.stageOf w).after a x).token ≠ some token := by
      intro k v hv hk htv hnew
      rcases hm.move.token with hsame | ⟨token', _, hnew', hfresh, _⟩
      · exact hk (h.distinct k i v w token hv hm.worker htv (hsame ▸ hnew))
      · rw [hnew'] at hnew
        have heq : token' = token := Option.some.inj hnew
        rw [heq] at hfresh
        exact hfresh (h.drawn k v token hv htv)
    rcases hm.worker_of hu with ⟨rfl, _, _, hstage⟩ | ⟨hj, hu⟩
    · rcases hm.worker_of hv with ⟨rfl, _, _, _⟩ | ⟨hk, hv⟩
      · rfl
      · exact absurd (hstage ▸ htu) (hother k v hv hk htv)
    · rcases hm.worker_of hv with ⟨rfl, _, _, hstage⟩ | ⟨hk, hv⟩
      · exact absurd (hstage ▸ htv) (hother j u hu hj htu)
      · exact h.distinct j k u v token hu hv htu htv
  locked j v c t hv hhold := by
    rcases hm.worker_of hv with ⟨rfl, hop, _, hstage⟩ | ⟨hj, hv⟩
    · -- The worker that moves has taken its lock just now, or it held it before.
      rw [hstage]
      obtain ⟨n, hadmit⟩ := hhold.op
      rcases hm.move.since (hstage ▸ hhold.since) with
        ⟨d, m, token, hop', _, htoken, hentry⟩ | ⟨hsince, htoken, hentry⟩
      · rw [hop'] at hop
        rw [hop] at hadmit
        cases hadmit
        exact ⟨token, htoken, hentry⟩
      · have hhold' : Holding a σ.shared.now w c t :=
          hhold.of_same hm.now hop (by rw [hsince, hhold.since])
        obtain ⟨token, htoken', hentry'⟩ := h.locked j w c t hm.worker hhold'
        refine ⟨token, ?_, ?_⟩
        · rcases htoken with hsame | hnone
          · rw [hsame]
            exact htoken'
          · rw [hnone] at htoken'
            cases htoken'
        · rw [hentry]
          exact hentry'
    · obtain ⟨token, htoken, hentry⟩ := h.locked j v c t hv (hhold.of_le hm.now)
      refine ⟨token, htoken, ?_⟩
      rw [h.entry_of_moves hm hv hj hhold]
      exact hentry

/-- In every reachable scene the locks of the store are the locks that workers hold. -/
theorem lockInv_reachable (h : Reachable F C σ) : LockInv a σ := by
  induction h with
  | start _ _ => exact lockInv_start
  | step hσ hstep _ ih =>
    rcases hstep.quiet_or_moves hσ with hq | ⟨i, w, x, hm⟩
    · exact lockInv_quiet ih hq
    · exact lockInv_moves ih hm

end ExecutionControl
