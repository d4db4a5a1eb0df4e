import ExecutionControl.Proofs.KeyFamilies
import ExecutionControl.Proofs.Limits.Changes
import ExecutionControl.Proofs.Schedules

/-! # Invalidation between lookups

    A write of a limit goes to the durable table first and drops the cached limit after it,
    so that lookups that start later read the new limit: `push_invalidation`. A lookup that
    had read the durable table before the write may still cache what it read after the
    cached limit was dropped; the limit that was replaced is then used for a whole time to
    live (`push_invalidation_overtaken`). The theorem therefore asks that no such lookup
    is under way when the write is over.

    The argument has two phases. While the write is under way, its row stays in the table
    once it is there (`Writing`). When the write is over, nothing is cached; from then on
    whatever is cached or read stands for the new limit (`Settled`).
-/

namespace ExecutionControl

namespace Operator

variable (o : Operator) (orgId : String) (n : Nat)

/-- The limit that the durable row of an organisation stands for. -/
def durableLimit (s : Shared) : Nat := o.admission.cache.limitOfRow (s.limits.get orgId)

/-- A write that leaves an organisation with the limit `n`. -/
def Leaves : LimitOperation → Prop
  | .set org m => org = orgId ∧ 0 < m ∧ n = m
  | .delete org => org = orgId ∧ n = o.admission.cache.defaultLimit
  | _ => False

/-- No write of the limit of the organisation is under way. -/
def NoWriter (σ : Scene o.limitRepertoire) : Prop :=
  ∀ w ∈ σ.workers, LimitOperation.Writes orgId w.op → w.isRunning = false

/-- Every row that was read stands for the limit `n`. -/
def ReadsOnly (log : Log) : Prop :=
  ∀ row, log.Has (.limits (.get orgId)) (.ok row) → o.admission.cache.limitOfRow row = n

/-- No lookup that is under way has read another limit than `n` in the durable table. -/
def NoneBehind (σ : Scene o.limitRepertoire) : Prop :=
  ∀ w ∈ σ.workers, w.op = LimitOperation.get orgId → w.isRunning → o.ReadsOnly orgId n w.log

/-- A lookup has seen the limit `n` and no other. -/
structure Agrees (log : Log) : Prop where
  rows : o.ReadsOnly orgId n log
  answered : ∀ e, ¬ log.Has (.limits (.get orgId)) (.error e)
  texts : ∀ raw, log.Has (.coord (.getText (Key.limitCache orgId))) (.ok (some raw)) →
    raw = toString n

/-- The services hold the limit `n` for the organisation, and cache no other. -/
structure HoldsLimit (s : Shared) : Prop where
  available : s.coord.available = true
  row : o.durableLimit orgId s = n
  cached : ∀ e, s.coord.entries[Key.limitCache orgId]? = some e → e.datum = .text (toString n)

/-- The organisation has the limit `n`, and nobody is about to cache another one; lookups
    that started since, as the workers from `first` on, have seen no other. -/
structure Settled (first : Nat) (σ : Scene o.limitRepertoire) : Prop where
  holds : o.HoldsLimit orgId n σ.shared
  first_le : first ≤ σ.workers.length
  noWriter : o.NoWriter orgId σ
  noneBehind : o.NoneBehind orgId n σ
  agrees : ∀ j w, σ.workers[j]? = some w → first ≤ j → w.op = LimitOperation.get orgId →
    o.Agrees orgId n w.log
  stopped : ∀ j w ov, σ.workers[j]? = some w → first ≤ j → w.left = .error ov →
    ov = .deadline ∧ Moment.bound ≤ σ.shared.now + o.admission.cache.ttl.nanos

variable {o} {orgId} {n} {s s' : Shared} {r : Request} {reply : r.Reply} {log : Log} {t : Moment}
  {σ σ' : Scene o.limitRepertoire} {first : Nat}

/-! ### One request -/

/-- A lookup that was just started has seen nothing. -/
theorem Agrees.nil : o.Agrees orgId n [] where
  rows := by rintro row ⟨t, ht⟩; cases ht
  answered := by rintro e ⟨t, ht⟩; cases ht
  texts := by rintro raw ⟨t, ht⟩; cases ht

theorem ReadsOnly.cons (h : o.ReadsOnly orgId n log) (hs : s.Serves .never r (.ok reply) s')
    (hrow : o.durableLimit orgId s' = n) : o.ReadsOnly orgId n (⟨t, r, reply⟩ :: log) := by
  intro row hhas
  rcases Log.has_cons hhas with heq | hbefore
  · cases heq
    rw [hs.limits_get]
    exact hrow
  · exact h row hbefore

theorem Agrees.cons (h : o.Agrees orgId n log) (hs : s.Serves .never r (.ok reply) s')
    (hholds : o.HoldsLimit orgId n s') : o.Agrees orgId n (⟨t, r, reply⟩ :: log) where
  rows := h.rows.cons hs hholds.row
  answered e hhas := by
    rcases Log.has_cons hhas with heq | hbefore
    · cases heq
      exact Shared.Serves.limits_get_ne_error hs
    · exact h.answered e hbefore
  texts raw hhas := by
    rcases Log.has_cons hhas with heq | hbefore
    · cases heq
      -- What was read is what is cached, and that is the limit `n`.
      have hdatum := hs.getText
      unfold CoordStore.datum? at hdatum
      obtain ⟨e, he, hraw⟩ := Option.map_eq_some_iff.mp hdatum
      have htext := hholds.cached e (CoordStore.live?_eq_some.mp he).1
      rw [hraw] at htext
      exact Datum.text.inj htext
    · exact h.texts raw hbefore

/-- A request of an operation that does not write the limit, and caches no other. -/
theorem HoldsLimit.asked {op : LimitOperation} (h : o.HoldsLimit orgId n s)
    (hs : s.Serves .never r (.ok reply) s') (hr : op.Permits o.admission.cache log r)
    (hwrites : ¬ op.Writes orgId) (hreads : op = .get orgId → o.ReadsOnly orgId n log) :
    o.HoldsLimit orgId n s' where
  available := hs.available.trans h.available
  row := by
    rcases hs.row_eq_or 0 orgId with hsame | hwritten
    · unfold durableLimit
      rw [hsame]
      exact h.row
    · exact absurd (LimitOperation.Permits.writes hr hwritten) hwrites
  cached e he := by
    rcases hs.entry_cases hr (Key.limitCache orgId) with hsame | hgone | ⟨value, rfl, hput⟩
    · exact h.cached e (hsame ▸ he)
    · rw [hgone] at he
      cases he
    · rw [hput] at he
      cases he
      obtain ⟨-, org, row, hop, hkey, -, hhas, rfl⟩ := hr
      obtain rfl := Key.limitCache_injective hkey
      rw [hreads hop row hhas]

/-! ### Steps after the write -/

/-- The requests of a worker that goes on are permitted. -/
theorem permits_of_kept {w : Worker o.limitRepertoire}
    {next : r.Reply → Program (o.limitRepertoire.Result w.op)}
    (hkept : o.limitDiscipline.KeptTo (LimitOperation.Ended o.admission.cache) w)
    (hleft : w.left = .ok (.ask r next)) :
    LimitOperation.Permits o.admission.cache w.op w.log r := by
  have hpermits := hkept.permits hleft
  rwa [Discipline.stageOf_ofLog] at hpermits

/-- Nobody who goes on writes the limit. -/
theorem NoWriter.not_writes {w : Worker o.limitRepertoire}
    {next : r.Reply → Program (o.limitRepertoire.Result w.op)} (h : o.NoWriter orgId σ)
    (hw : w ∈ σ.workers) (hleft : w.left = .ok (.ask r next)) :
    ¬ LimitOperation.Writes orgId w.op := by
  intro hwrites
  have hrunning := Worker.isRunning_of_left hleft
  rw [h w hw hwrites] at hrunning
  cases hrunning

/-- A step keeps the limit where nobody is about to write or cache another one. -/
theorem Settled.holds_step (h : o.Settled orgId n first σ)
    (hkept : ∀ w ∈ σ.workers, o.limitDiscipline.KeptTo (LimitOperation.Ended o.admission.cache) w)
    (hstep : σ.Step .never σ') : o.HoldsLimit orgId n σ'.shared := by
  cases hstep.effect with
  | passes ht hs =>
    rw [hs]
    exact ⟨h.holds.available, h.holds.row, h.holds.cached⟩
  | asked hw hleft hs =>
    exact h.holds.asked hs (permits_of_kept (hkept _ hw) hleft) (h.noWriter.not_writes hw hleft)
      fun hget => h.noneBehind _ hw hget (Worker.isRunning_of_left hleft)
  | stopped hw hleft hs =>
    obtain ⟨hcoord, hlimits⟩ := hs.stopped_limits
    constructor
    · rw [hcoord]
      exact h.holds.available
    · unfold durableLimit
      rw [hlimits]
      exact h.holds.row
    · rw [hcoord]
      exact h.holds.cached

/-- A step in which nobody starts to write the limit leaves it settled. -/
theorem Settled.step (h : o.Settled orgId n first σ)
    (hkept : ∀ w ∈ σ.workers, o.limitDiscipline.KeptTo (LimitOperation.Ended o.admission.cache) w)
    (hstep : σ.Step .never σ')
    (hlater : ∀ j w, σ'.workers[j]? = some w → first ≤ j → ¬ LimitOperation.Writes orgId w.op) :
    o.Settled orgId n first σ' := by
  have hholds := h.holds_step hkept hstep
  constructor
  case holds => exact hholds
  case first_le => exact Nat.le_trans h.first_le hstep.length_le
  case noWriter =>
    intro v hv hwrites
    obtain ⟨j, hj⟩ := List.getElem?_of_mem hv
    cases hstep.outcome hj with
    | same hold => exact h.noWriter v (List.mem_of_getElem? hold) hwrites
    | started op hlast _ => exact absurd hwrites (hlater j v hj (hlast ▸ h.first_le))
    | asked hw hleft _ hnew =>
      have hnot := h.noWriter.not_writes (List.mem_of_getElem? hw) hleft
      subst hnew
      exact absurd hwrites hnot
    | stopped _ _ _ hnew => subst hnew; rfl
  case noneBehind =>
    intro v hv hget hrunning
    obtain ⟨j, hj⟩ := List.getElem?_of_mem hv
    cases hstep.outcome hj with
    | same hold => exact h.noneBehind v (List.mem_of_getElem? hold) hget hrunning
    -- A lookup that starts now has read nothing yet.
    | started op _ hnew => subst hnew; exact Agrees.nil.rows
    | asked hw hleft hs hnew =>
      subst hnew
      exact (h.noneBehind _ (List.mem_of_getElem? hw) hget
        (Worker.isRunning_of_left hleft)).cons hs hholds.row
    | stopped _ _ _ hnew => subst hnew; cases hrunning
  case agrees =>
    intro j v hj hfirst hget
    cases hstep.outcome hj with
    | same hold => exact h.agrees j v hold hfirst hget
    | started op _ hnew => subst hnew; exact Agrees.nil
    | asked hw _ hs hnew => subst hnew; exact (h.agrees j _ hw hfirst hget).cons hs hholds
    | stopped hw _ _ hnew =>
      have hagrees := h.agrees j _ hw hfirst
      subst hnew
      exact hagrees hget
  case stopped =>
    intro j v ov hj hfirst hov
    cases hstep.outcome hj with
    | same hold =>
      obtain ⟨hdeadline, hbound⟩ := h.stopped j v ov hold hfirst hov
      exact ⟨hdeadline, Nat.le_trans hbound (Nat.add_le_add_right hstep.now_le _)⟩
    | started op _ hnew => subst hnew; cases hov
    | asked _ _ _ hnew => subst hnew; cases hov
    | stopped hw hleft hs hnew =>
      subst hnew
      cases hov
      obtain ⟨hdeadline, hbound, -⟩ :=
        hs.overflow_cases (permits_of_kept (hkept _ (List.mem_of_getElem? hw)) hleft)
      exact ⟨hdeadline, hbound⟩

theorem Settled.steps (h : o.Settled orgId n first σ) (hreach : Reachable .never (fun _ => True) σ)
    (hsteps : σ.Steps .never σ')
    (hlater : ∀ j w, σ'.workers[j]? = some w → first ≤ j → ¬ LimitOperation.Writes orgId w.op) :
    o.Settled orgId n first σ' := by
  induction hsteps with
  | refl => exact h
  | @tail σ₁ σ₂ hsteps hstep ih =>
    -- Whoever is there before the last step is there after it.
    have hbefore : ∀ j w, σ₁.workers[j]? = some w → first ≤ j →
        ¬ LimitOperation.Writes orgId w.op := by
      intro j w hw hfirst hwrites
      obtain ⟨w', hw', hop⟩ := hstep.exists_worker hw
      exact hlater j w' hw' hfirst (hop ▸ hwrites)
    exact (ih hbefore).step (limits_endsAs.keptTo (hreach.steps hsteps)) hstep hlater

/-! ### Steps during the write -/

/-- No attempt to write the limit or to drop it from the cache has failed. -/
structure Unfailed (orgId : String) (log : Log) : Prop where
  dropped : ∀ e, ¬ log.Has (.coord (.delete (Key.limitCache orgId))) (.error e)
  upserted : ∀ m e, ¬ log.Has (.limits (.upsert orgId m)) (.error e)
  deleted : ∀ e, ¬ log.Has (.limits (.delete orgId)) (.error e)

/-- The worker `i` is the only one that writes the limit, and what it wrote is there. -/
structure Writing (o : Operator) (orgId : String) (n : Nat) (op : LimitOperation) (i : Nat)
    (σ : Scene o.limitRepertoire) : Prop where
  available : σ.shared.coord.available = true
  lt_length : i < σ.workers.length
  op_eq : ∀ w, σ.workers[i]? = some w → w.op = op
  others : ∀ j w, σ.workers[j]? = some w → LimitOperation.Writes orgId w.op → j ≠ i →
    w.isRunning = false
  row : ∀ w, σ.workers[i]? = some w → (∃ x ∈ w.log, x.WritesRow orgId) →
    o.durableLimit orgId σ.shared = n
  unfailed : ∀ w, σ.workers[i]? = some w → Unfailed orgId w.log

variable {op : LimitOperation} {i : Nat}

theorem Unfailed.nil : Unfailed orgId [] where
  dropped := by rintro e ⟨t, ht⟩; cases ht
  upserted := by rintro m e ⟨t, ht⟩; cases ht
  deleted := by rintro e ⟨t, ht⟩; cases ht

theorem Unfailed.cons (h : Unfailed orgId log) (hs : s.Serves .never r (.ok reply) s')
    (havailable : s.coord.available = true) (hr : op.Permits o.admission.cache log r)
    (hop : o.Leaves orgId n op) : Unfailed orgId (⟨t, r, reply⟩ :: log) where
  dropped e hhas := by
    rcases Log.has_cons hhas with heq | hbefore
    · cases heq
      exact Shared.Serves.delete_ne_error havailable hs
    · exact h.dropped e hbefore
  upserted m e hhas := by
    rcases Log.has_cons hhas with heq | hbefore
    · cases heq
      have hset : op = .set orgId m := hr.2
      rw [hset] at hop
      exact Shared.Serves.limits_upsert_ne_error hop.2.1 hs
    · exact h.upserted m e hbefore
  deleted e hhas := by
    rcases Log.has_cons hhas with heq | hbefore
    · cases heq
      exact Shared.Serves.limits_delete_ne_error hs
    · exact h.deleted e hbefore

/-- A row that is written by an operation that leaves the limit `n` stands for `n`. -/
theorem durableLimit_of_writesRow (hs : s.Serves F r (.ok reply) s')
    (hr : op.Permits o.admission.cache log r) (hop : o.Leaves orgId n op)
    (hx : Exchange.WritesRow orgId ⟨t, r, reply⟩) : o.durableLimit orgId s' = n := by
  unfold durableLimit LimitCache.limitOfRow
  cases hx with
  | @upsert _ m row hx =>
    cases hx
    obtain ⟨hpos, hget, hlimit⟩ := hs.limits_upsert
    have hset : op = .set orgId m := hr.2
    rw [hset] at hop
    rw [hget, Option.elim_some, hlimit, hop.2.2]
    omega
  | delete hx =>
    cases hx
    have hdelete : op = .delete orgId := hr.2
    rw [hdelete] at hop
    rw [hs.limits_delete, Option.elim_none, hop.2]

/-- A worker that goes on and writes the limit is the one that may. -/
theorem Writing.index_eq (h : o.Writing orgId n op i σ) {w : Worker o.limitRepertoire} {j : Nat}
    {next : r.Reply → Program (o.limitRepertoire.Result w.op)} (hw : σ.workers[j]? = some w)
    (hleft : w.left = .ok (.ask r next)) (hwrites : LimitOperation.Writes orgId w.op) : j = i := by
  by_contra hne
  have hrunning := Worker.isRunning_of_left hleft
  rw [h.others j w hw hwrites hne] at hrunning
  cases hrunning

/-- The row stays as it is, or it comes to stand for the limit that is written. -/
theorem Writing.row_step (h : o.Writing orgId n op i σ) (hop : o.Leaves orgId n op)
    (hkept : ∀ w ∈ σ.workers, o.limitDiscipline.KeptTo (LimitOperation.Ended o.admission.cache) w)
    (hstep : σ.Step .never σ') :
    o.durableLimit orgId σ'.shared = o.durableLimit orgId σ.shared ∨
      o.durableLimit orgId σ'.shared = n := by
  cases hstep.effect with
  | passes ht hs => rw [hs]; exact .inl rfl
  | asked hw hleft hs =>
    have hpermits := permits_of_kept (hkept _ hw) hleft
    rcases hs.row_eq_or 0 orgId with hsame | hwritten
    · left
      unfold durableLimit
      rw [hsame]
    · right
      have hwrites := LimitOperation.Permits.writes hpermits hwritten
      obtain ⟨j, hj⟩ := List.getElem?_of_mem hw
      obtain rfl := h.index_eq hj hleft hwrites
      rw [h.op_eq _ hj] at hpermits
      exact durableLimit_of_writesRow hs hpermits hop hwritten
  | stopped hw hleft hs =>
    left
    unfold durableLimit
    rw [hs.stopped_limits.2]

/-- What a step keeps up while the limit is written. -/
theorem Writing.step (h : o.Writing orgId n op i σ) (hop : o.Leaves orgId n op)
    (hkept : ∀ w ∈ σ.workers, o.limitDiscipline.KeptTo (LimitOperation.Ended o.admission.cache) w)
    (hstep : σ.Step .never σ')
    (halone : ∀ j w, σ'.workers[j]? = some w → LimitOperation.Writes orgId w.op → j ≤ i) :
    o.Writing orgId n op i σ' := by
  have hrow := h.row_step hop hkept hstep
  have hnew : ∀ {x : Nat}, x = σ.workers.length → i < x := fun hx => hx ▸ h.lt_length
  constructor
  case available => exact hstep.available.trans h.available
  case lt_length => exact Nat.lt_of_lt_of_le h.lt_length hstep.length_le
  case op_eq =>
    intro v hv
    cases hstep.outcome hv with
    | same hold => exact h.op_eq v hold
    | started _ hlast _ => exact absurd (hnew hlast) (Nat.lt_irrefl i)
    | asked hw _ _ hv => have hop := h.op_eq _ hw; subst hv; exact hop
    | stopped hw _ _ hv => have hop := h.op_eq _ hw; subst hv; exact hop
  case others =>
    intro j v hv hwrites hne
    cases hstep.outcome hv with
    | same hold => exact h.others j v hold hwrites hne
    | started _ hlast _ => exact absurd (halone j v hv hwrites) (Nat.not_le.mpr (hnew hlast))
    | asked hw hleft _ hv =>
      subst hv
      exact absurd (h.index_eq hw hleft hwrites) hne
    | stopped _ _ _ hv => subst hv; rfl
  case row =>
    -- The row that was written before is there, or another one with the same limit.
    have hkeeps : o.durableLimit orgId σ.shared = n → o.durableLimit orgId σ'.shared = n :=
      fun hbefore => hrow.elim (fun hsame => hsame.trans hbefore) id
    intro v hv hwritten
    cases hstep.outcome hv with
    | same hold => exact hkeeps (h.row v hold hwritten)
    | started _ hlast _ => exact absurd (hnew hlast) (Nat.lt_irrefl i)
    | @asked w _ _ _ hw hleft hs hv =>
      have hpermits := permits_of_kept (hkept _ (List.mem_of_getElem? hw)) hleft
      rw [h.op_eq _ hw] at hpermits
      have hbefore := h.row _ hw
      subst hv
      obtain ⟨x, hx, hwrites⟩ := hwritten
      rcases List.mem_cons.mp hx with rfl | hx
      · exact durableLimit_of_writesRow hs hpermits hop hwrites
      · exact hkeeps (hbefore ⟨x, hx, hwrites⟩)
    | stopped hw _ _ hv =>
      have hbefore := h.row _ hw
      subst hv
      exact hkeeps (hbefore hwritten)
  case unfailed =>
    intro v hv
    cases hstep.outcome hv with
    | same hold => exact h.unfailed v hold
    | started _ hlast _ => exact absurd (hnew hlast) (Nat.lt_irrefl i)
    | asked hw hleft hs hv =>
      have hpermits := permits_of_kept (hkept _ (List.mem_of_getElem? hw)) hleft
      rw [h.op_eq _ hw] at hpermits
      have hbefore := h.unfailed _ hw
      subst hv
      exact hbefore.cons hs h.available hpermits hop
    | stopped hw _ _ hv =>
      have hbefore := h.unfailed _ hw
      subst hv
      exact hbefore

theorem Writing.steps (h : o.Writing orgId n op i σ) (hop : o.Leaves orgId n op)
    (hreach : Reachable .never (fun _ => True) σ) (hsteps : σ.Steps .never σ')
    (halone : ∀ j w, σ'.workers[j]? = some w → LimitOperation.Writes orgId w.op → j ≤ i) :
    o.Writing orgId n op i σ' := by
  induction hsteps with
  | refl => exact h
  | @tail σ₁ σ₂ hsteps hstep ih =>
    have hbefore : ∀ j w, σ₁.workers[j]? = some w → LimitOperation.Writes orgId w.op → j ≤ i := by
      intro j w hw hwrites
      obtain ⟨w', hw', hop⟩ := hstep.exists_worker hw
      exact halone j w' hw' (hop ▸ hwrites)
    exact (ih hbefore).step hop (limits_endsAs.keptTo (hreach.steps hsteps)) hstep halone

/-! ### When the write is over -/

/-- A write that is over has written the row and, if nothing failed, has dropped the cached
    limit last. -/
theorem written_of_ended {result : op.Result} (hop : o.Leaves orgId n op)
    (hended : op.Ended o.admission.cache result log) (hunfailed : Unfailed orgId log) :
    (∃ x ∈ log, x.WritesRow orgId) ∧ ∃ t existed past,
      log = ⟨t, .coord (.delete (Key.limitCache orgId)), .ok existed⟩ :: past := by
  -- The cached limit is dropped last, or dropping it fails.
  have hdropped : LimitOperation.Dropped orgId log → ∃ t existed past,
      log = ⟨t, .coord (.delete (Key.limitCache orgId)), .ok existed⟩ :: past := by
    rintro (hlast | ⟨e, hfailed⟩)
    · exact hlast
    · exact absurd hfailed (hunfailed.dropped e)
  cases op with
  | set org m =>
    obtain ⟨rfl, -, -⟩ := hop
    cases result with
    | error e =>
      obtain ⟨t, rfl⟩ := hended
      exact absurd Log.has_cons_self (hunfailed.upserted m e)
    | ok row =>
      obtain ⟨⟨t, ht⟩, hlast⟩ := hended
      exact ⟨⟨_, ht, .upsert rfl⟩, hdropped hlast⟩
  | delete org =>
    obtain ⟨rfl, -⟩ := hop
    cases result with
    | error e =>
      obtain ⟨t, rfl⟩ := hended
      exact absurd Log.has_cons_self (hunfailed.deleted e)
    | ok existed =>
      obtain ⟨⟨t, ht⟩, hlast⟩ := hended
      exact ⟨⟨_, ht, .delete rfl⟩, hdropped hlast⟩
  | _ => exact hop.elim

/-- When the write is over and no lookup is behind, the limit is settled. -/
theorem Writing.settled {w w' : Worker o.limitRepertoire} {result : o.limitRepertoire.Result w'.op}
    (h : o.Writing orgId n op i σ) (hop : o.Leaves orgId n op)
    (hreach : Reachable .never (fun _ => True) σ) (hstep : σ.Step .never σ')
    (halone : ∀ j w, σ'.workers[j]? = some w → LimitOperation.Writes orgId w.op → j ≤ i)
    (hw : σ.workers[i]? = some w) (hrunning : w.isRunning)
    (hw' : σ'.workers[i]? = some w') (hdone : w'.left = .ok (.done result))
    (hbehind : o.NoneBehind orgId n σ') :
    o.Settled orgId n σ'.workers.length σ' := by
  have hwriting := h.step hop (limits_endsAs.keptTo hreach) hstep halone
  have hended := (limits_endsAs.keptTo (hreach.step hstep trivial) w'
    (List.mem_of_getElem? hw')).done hdone
  rw [Discipline.stageOf_ofLog] at hended
  have hunfailed := hwriting.unfailed w' hw'
  have hrow := hwriting.row w' hw'
  -- The last request of the write dropped the cached limit.
  have hdropped : σ'.shared.coord.entries[Key.limitCache orgId]? = none := by
    have hop' := hwriting.op_eq w' hw'
    cases hstep.outcome hw' with
    | same hold =>
      rw [hw] at hold
      cases hold
      simp [Worker.isRunning, hdone] at hrunning
    | started _ hlast _ => exact absurd hlast (Nat.ne_of_lt h.lt_length)
    | asked _ _ hs hnew =>
      subst hnew
      obtain ⟨-, t, existed, past, hlog⟩ := written_of_ended (hop' ▸ hop) hended hunfailed
      cases hlog
      exact hs.delete
    | stopped _ _ _ hnew => subst hnew; cases hdone
  have hlate : ∀ {j : Nat} {v : Worker o.limitRepertoire}, σ'.workers[j]? = some v →
      ¬ σ'.workers.length ≤ j :=
    fun hv => Nat.not_le.mpr (List.getElem?_eq_some_iff.mp hv).1
  constructor
  case holds =>
    refine ⟨hwriting.available, ?_, fun e he => ?_⟩
    · exact hrow (written_of_ended (hwriting.op_eq w' hw' ▸ hop) hended hunfailed).1
    · rw [hdropped] at he
      cases he
  case first_le => exact Nat.le_refl _
  case noWriter =>
    intro v hv hwrites
    obtain ⟨j, hj⟩ := List.getElem?_of_mem hv
    by_cases hi : j = i
    · subst hi
      rw [hw'] at hj
      cases hj
      simp [Worker.isRunning, hdone]
    · exact hwriting.others j v hj hwrites hi
  case noneBehind => exact hbehind
  -- No lookup has started since.
  case agrees => exact fun j v hv hlast _ => absurd hlast (hlate hv)
  case stopped => exact fun j v _ hv hlast _ => absurd hlast (hlate hv)

/-- A lookup that is over gives back the limit that it has seen. -/
theorem Agrees.eq {v : Nat} (h : o.Agrees orgId n log)
    (hlooked : LimitOperation.Looked o.admission.cache orgId v log) : v = n := by
  cases hlooked with
  | hit hraw hlog =>
    subst hlog
    rw [h.texts _ Log.has_cons_self] at hraw
    exact LimitCache.eq_of_cachedLimit?_toString hraw
  | read hrow _ hv => exact hv.trans (h.rows _ hrow)
  | stoodIn hfailed _ _ _ => exact absurd hfailed (h.answered _)

/-- Stores that never fail, on which any operations on limits run side by side. A write
    starts at `σ`, where no other write for its organisation is under way, and returns from
    `σ₁` to `σ₂`; it leaves the organisation with the limit `n`. No other write for the
    organisation starts up to `σ₃`. -/
structure WriteReturns (o : Operator) (orgId : String) (n : Nat) (op : LimitOperation)
    (σ σ₁ σ₂ σ₃ : Scene o.limitRepertoire) : Prop where
  leaves : o.Leaves orgId n op
  reachable : Reachable .never (fun _ => True) σ
  available : σ.shared.coord.available = true
  quiet : o.NoWriter orgId σ
  writes : Scene.Steps .never ⟨σ.shared, σ.workers ++ [o.limitRepertoire.worker op]⟩ σ₁
  running : ∃ w, σ₁.workers[σ.workers.length]? = some w ∧ w.isRunning
  returns : σ₁.Step .never σ₂
  done : ∃ w, σ₂.workers[σ.workers.length]? = some w ∧ w.isDone
  later : σ₂.Steps .never σ₃
  alone : ∀ j w, σ₃.workers[j]? = some w → LimitOperation.Writes orgId w.op →
    j ≤ σ.workers.length

variable {σ₁ σ₂ σ₃ : Scene o.limitRepertoire}

/-- When the write starts, nothing is written. -/
theorem WriteReturns.writing (h : o.WriteReturns orgId n op σ σ₁ σ₂ σ₃) :
    o.Writing orgId n op σ.workers.length
      ⟨σ.shared, σ.workers ++ [o.limitRepertoire.worker op]⟩ := by
  have hnew : ∀ v, (σ.workers ++ [o.limitRepertoire.worker op])[σ.workers.length]? = some v →
      v = o.limitRepertoire.worker op := by
    intro v hv
    simpa [eq_comm] using hv
  refine ⟨h.available, by simp, fun v hv => ?_, fun j v hv hwrites hne => ?_, fun v hv hx => ?_,
    fun v hv => ?_⟩
  · rw [hnew v hv]
    rfl
  · rcases worker_of_start hv with hold | ⟨hlast, -⟩
    · exact h.quiet v (List.mem_of_getElem? hold) hwrites
    · exact absurd hlast hne
  · rw [hnew v hv] at hx
    obtain ⟨x, hx, -⟩ := hx
    cases hx
  · rw [hnew v hv]
    exact .nil

/-- Up to its end the schedule keeps the limit settled from the return of the write on. -/
theorem WriteReturns.settled (h : o.WriteReturns orgId n op σ σ₁ σ₂ σ₃)
    (hbehind : o.NoneBehind orgId n σ₂) :
    Reachable .never (fun _ => True) σ₃ ∧ o.Settled orgId n σ₂.workers.length σ₃ := by
  obtain ⟨w, hw, hrunning⟩ := h.running
  obtain ⟨w', hw', hdone⟩ := h.done
  obtain ⟨result, hresult⟩ := Worker.exists_of_isDone hdone
  -- Whoever wrote the limit before the end of the schedule is there at its end.
  have halone₂ : ∀ j v, σ₂.workers[j]? = some v → LimitOperation.Writes orgId v.op →
      j ≤ σ.workers.length := by
    intro j v hv hwrites
    obtain ⟨v', hv', hop⟩ := h.later.exists_worker hv
    exact h.alone j v' hv' (hop ▸ hwrites)
  have halone₁ : ∀ j v, σ₁.workers[j]? = some v → LimitOperation.Writes orgId v.op →
      j ≤ σ.workers.length := by
    intro j v hv hwrites
    obtain ⟨v', hv', hop⟩ := h.returns.exists_worker hv
    exact halone₂ j v' hv' (hop ▸ hwrites)
  have hreach₀ : Reachable .never (fun _ => True)
      ⟨σ.shared, σ.workers ++ [o.limitRepertoire.worker op]⟩ :=
    h.reachable.step (@Scene.Step.start o.limitRepertoire .never σ.shared σ.workers op) trivial
  have hreach₁ := hreach₀.steps h.writes
  have hreach₂ := hreach₁.step h.returns trivial
  have hwriting := h.writing.steps h.leaves hreach₀ h.writes halone₁
  have hsettled := hwriting.settled h.leaves hreach₁ h.returns halone₂ hw hrunning hw' hresult
    hbehind
  have hlength : σ.workers.length < σ₂.workers.length := (List.getElem?_eq_some_iff.mp hw').1
  refine ⟨hreach₂.steps h.later, hsettled.steps hreach₂ h.later fun j v hv hfirst hwrites => ?_⟩
  have := h.alone j v hv hwrites
  omega

/-- After a write has returned that leaves an organisation with the limit `n`, every lookup
    that starts gives back `n`, as long as no other write is under way; unless, when the
    write returned, some lookup that was still under way had read another limit in the
    durable table. A lookup does not end in any other way, unless the time to live of what
    it caches reaches beyond the clock. -/
theorem push_invalidation (h : o.WriteReturns orgId n op σ σ₁ σ₂ σ₃)
    (hbehind : o.NoneBehind orgId n σ₂) {j : Nat} {left : Checked (Program Nat)} {log : Log}
    (hj : σ₂.workers.length ≤ j) (hlookup : σ₃.workers[j]? = some ⟨.get orgId, left, log⟩) :
    (∀ v, left = .ok (.done v) → v = n) ∧
      ∀ ov, left = .error ov →
        ov = .deadline ∧ Moment.bound ≤ σ₃.shared.now + o.admission.cache.ttl.nanos := by
  obtain ⟨hreach, hsettled⟩ := h.settled hbehind
  refine ⟨fun v hv => ?_, fun ov hov => hsettled.stopped j _ ov hlookup hj hov⟩
  have hended := (limits_endsAs.keptTo hreach _ (List.mem_of_getElem? hlookup)).done hv
  rw [Discipline.stageOf_ofLog] at hended
  exact (hsettled.agrees j _ hlookup hj rfl).eq hended

/-! ### Two schedules -/

/-- What a lookup that is over has looked up. -/
def lookedUp? (w : Worker withTwenty.limitRepertoire) : Option (String × Nat) :=
  match w with
  | ⟨.get org, .ok (.done v), _⟩ => some (org, v)
  | _ => none

theorem eq_of_lookedUp? {w : Worker withTwenty.limitRepertoire} {v : Nat}
    (h : lookedUp? w = some (orgId, v)) : ∃ log, w = ⟨.get orgId, .ok (.done v), log⟩ := by
  unfold lookedUp? at h
  split at h
  · cases h
    exact ⟨_, rfl⟩
  · cases h

/-- The operations of a scene. -/
def opsOf (σ : Scene withTwenty.limitRepertoire) : List LimitOperation :=
  σ.workers.map fun w => w.op

/-- The four scenes of a schedule in which the limit of an organisation is set to 5: the
    write starts after `before`, makes all its requests but the last one during `writes`,
    and has returned when `later` begins. -/
def scenesOf (before writes later : List withTwenty.limitRepertoire.Turn) :
    Scene withTwenty.limitRepertoire × Scene withTwenty.limitRepertoire ×
      Scene withTwenty.limitRepertoire × Scene withTwenty.limitRepertoire :=
  let τ := Scene.after ⟨{}, []⟩ before
  let τ₁ := (τ.turn (.start (.set "o" 5))).after writes
  let τ₂ := τ₁.turn (.next τ.workers.length)
  (τ, τ₁, τ₂, τ₂.after later)

theorem writeReturns_of_scenesOf {before writes later : List withTwenty.limitRepertoire.Turn}
    {τ τ₁ τ₂ τ₃ : Scene withTwenty.limitRepertoire}
    (h : scenesOf before writes later = (τ, τ₁, τ₂, τ₃))
    (havailable : τ.shared.coord.available = true)
    (hquiet : ∀ op ∈ opsOf τ, ¬ op.Writes "o")
    (hrunning : τ₁.workers[τ.workers.length]?.map Worker.isRunning = some true)
    (hdone : τ₂.workers[τ.workers.length]?.map Worker.isDone = some true)
    (halone : ∀ op ∈ (opsOf τ₃).drop (τ.workers.length + 1), ¬ op.Writes "o") :
    withTwenty.WriteReturns "o" 5 (.set "o" 5) τ τ₁ τ₂ τ₃ := by
  simp only [scenesOf, Prod.mk.injEq] at h
  obtain ⟨hτ, rfl, hτ₂, rfl⟩ := h
  have hempty : Reachable .never (fun _ : Scene withTwenty.limitRepertoire => True) ⟨{}, []⟩ :=
    .start rfl trivial
  obtain ⟨w, hw, hgoing⟩ := Option.map_eq_some_iff.mp hrunning
  obtain ⟨w', hw', hover⟩ := Option.map_eq_some_iff.mp hdone
  refine ⟨⟨rfl, by decide, rfl⟩, ?_, havailable, ?_, ?_, ⟨w, hw, hgoing⟩, ?_, ⟨w', hw', hover⟩,
    ?_, ?_⟩
  · rw [← hτ]
    exact hempty.steps (Scene.steps_after _ _ _)
  · intro v hv hwrites
    exact absurd hwrites (hquiet _ (List.mem_map_of_mem hv))
  · rw [hτ]
    exact Scene.steps_after _ _ _
  · subst hτ
    rcases Scene.turn_step .never _ (.next _) with hstep | hsame
    · rw [← hτ₂]
      exact hstep
    · -- The turn has ended the write, and so it has changed something.
      rw [← hτ₂, hsame] at hw'
      rw [hw] at hw'
      cases hw'
      rw [Worker.isRunning_of_isDone hover] at hgoing
      cases hgoing
  · rw [hτ₂]
    exact Scene.steps_after _ _ _
  · intro j v hv hwrites
    by_contra hlt
    refine halone v.op ?_ hwrites
    rw [List.mem_iff_getElem?]
    refine ⟨j - (τ.workers.length + 1), ?_⟩
    have hindex : τ.workers.length + 1 + (j - (τ.workers.length + 1)) = j := by omega
    rw [List.getElem?_drop, opsOf, List.getElem?_map, hindex, hv]
    rfl

/-- Whether a row of the organisation was read that stands for another limit than `n`. -/
def readsOther (o : Operator) (orgId : String) (n : Nat) (x : Exchange) : Bool :=
  match x with
  | ⟨_, .limits (.get org), .ok row⟩ => org == orgId && o.admission.cache.limitOfRow row != n
  | _ => false

theorem readsOnly_of_readsOther (h : ∀ x ∈ log, o.readsOther orgId n x = false) :
    o.ReadsOnly orgId n log := by
  rintro row ⟨t, hmem⟩
  have hsame := h _ hmem
  simpa [readsOther] using hsame

/-- Whether a lookup of the organisation is under way that has read another limit than `n`. -/
def isBehind (o : Operator) (orgId : String) (n : Nat) (w : Worker o.limitRepertoire) : Bool :=
  (w.op : LimitOperation) = .get orgId && w.isRunning && w.log.any (o.readsOther orgId n)

theorem noneBehind_of_isBehind (h : ∀ w ∈ σ.workers, o.isBehind orgId n w = false) :
    o.NoneBehind orgId n σ := by
  intro w hw hop hrunning
  apply readsOnly_of_readsOther
  intro x hx
  have hnot := h w hw
  simp only [isBehind, hop, hrunning, decide_true, Bool.true_and, List.any_eq_false] at hnot
  exact Bool.eq_false_iff.mpr (hnot x hx)

/-- Two lookups around a write. The first one misses the cache before the write starts, reads
    the row that the write puts into the table, and is still under way when the write
    returns; it caches that row while the second one misses the cache in its turn. -/
def readBack : Scene withTwenty.limitRepertoire × Scene withTwenty.limitRepertoire ×
    Scene withTwenty.limitRepertoire × Scene withTwenty.limitRepertoire :=
  scenesOf [.start (.get "o"), .next 0] [.next 1, .next 0]
    [.start (.get "o"), .next 2, .next 0, .next 2, .next 2]

theorem push_invalidation_read_back :
    ∃ τ τ₁ τ₂ τ₃ : Scene withTwenty.limitRepertoire,
      withTwenty.WriteReturns "o" 5 (.set "o" 5) τ τ₁ τ₂ τ₃ ∧ withTwenty.NoneBehind "o" 5 τ₂ ∧
      opsOf τ = [.get "o"] ∧ τ₂.workers[0]?.map Worker.isRunning = some true ∧
      τ₂.workers.length ≤ 2 ∧ ∃ log, τ₃.workers[2]? = some ⟨.get "o", .ok (.done 5), log⟩ := by
  have hchecks : readBack.1.shared.coord.available = true ∧ readBack.1.workers.length = 1 ∧
      readBack.2.1.workers[1]?.map Worker.isRunning = some true ∧
      readBack.2.2.1.workers[1]?.map Worker.isDone = some true ∧
      opsOf readBack.1 = [.get "o"] ∧ readBack.2.2.1.workers.length = 2 ∧
      (∀ w ∈ readBack.2.2.1.workers, withTwenty.isBehind "o" 5 w = false) ∧
      readBack.2.2.1.workers[0]?.map Worker.isRunning = some true ∧
      opsOf readBack.2.2.2 = [.get "o", .set "o" 5, .get "o"] ∧
      readBack.2.2.2.workers[2]?.map Worker.isDone = some true := by decide +kernel
  have hscenes : scenesOf [.start (.get "o"), .next 0] [.next 1, .next 0]
      [.start (.get "o"), .next 2, .next 0, .next 2, .next 2] =
      (readBack.1, readBack.2.1, readBack.2.2.1, readBack.2.2.2) := rfl
  -- The scenes are not computed any further.
  generalize readBack.1 = τ, readBack.2.1 = τ₁, readBack.2.2.1 = τ₂, readBack.2.2.2 = τ₃
    at hchecks hscenes
  obtain ⟨havailable, hlength, hrunning, hdone, hops, hlength₂, hnone, hoverlap, hops₃, hlast⟩ :=
    hchecks
  have hwrite : withTwenty.WriteReturns "o" 5 (.set "o" 5) τ τ₁ τ₂ τ₃ := by
    refine writeReturns_of_scenesOf hscenes havailable ?_ ?_ ?_ ?_
    · rw [hops]
      decide
    · rwa [hlength]
    · rwa [hlength]
    · rw [hlength, hops₃]
      decide
  have hbehind : withTwenty.NoneBehind "o" 5 τ₂ := noneBehind_of_isBehind hnone
  obtain ⟨⟨op, left, log⟩, hw, hdone'⟩ := Option.map_eq_some_iff.mp hlast
  have hop : some op = some (.get "o") := by
    have hget : (opsOf τ₃)[2]? = some (.get "o") := by rw [hops₃]; rfl
    rw [opsOf, List.getElem?_map, hw] at hget
    exact hget
  cases hop
  obtain ⟨result, rfl⟩ : ∃ result : Nat, left = .ok (.done result) :=
    Worker.exists_of_isDone hdone'
  have hfive : result = 5 :=
    (push_invalidation hwrite hbehind (Nat.le_of_eq hlength₂) hw).1 result rfl
  exact ⟨τ, τ₁, τ₂, τ₃, hwrite, hbehind, hops, hoverlap, Nat.le_of_eq hlength₂, log, hfive ▸ hw⟩

/-- A lookup that has read the durable table before the write, and caches what it read after
    the cached limit was dropped. -/
def overtaken : Scene withTwenty.limitRepertoire × Scene withTwenty.limitRepertoire ×
    Scene withTwenty.limitRepertoire × Scene withTwenty.limitRepertoire :=
  scenesOf [.start (.get "o"), .next 0, .next 0] [.next 1] [.next 0, .start (.get "o"), .next 2]

/-- The lookup that starts after the write gives back the limit before the write. -/
theorem push_invalidation_overtaken :
    ∃ τ τ₁ τ₂ τ₃ : Scene withTwenty.limitRepertoire,
      withTwenty.WriteReturns "o" 5 (.set "o" 5) τ τ₁ τ₂ τ₃ ∧ τ₂.workers.length ≤ 2 ∧
      ∃ log, τ₃.workers[2]? = some ⟨.get "o", .ok (.done 20), log⟩ := by
  have hchecks : overtaken.1.shared.coord.available = true ∧ overtaken.1.workers.length = 1 ∧
      overtaken.2.1.workers[1]?.map Worker.isRunning = some true ∧
      overtaken.2.2.1.workers[1]?.map Worker.isDone = some true ∧
      overtaken.2.2.1.workers.length = 2 ∧ opsOf overtaken.1 = [.get "o"] ∧
      opsOf overtaken.2.2.2 = [.get "o", .set "o" 5, .get "o"] ∧
      overtaken.2.2.2.workers[2]?.bind lookedUp? = some ("o", 20) := by decide +kernel
  have hscenes : scenesOf [.start (.get "o"), .next 0, .next 0] [.next 1]
      [.next 0, .start (.get "o"), .next 2] =
      (overtaken.1, overtaken.2.1, overtaken.2.2.1, overtaken.2.2.2) := rfl
  -- The scenes are not computed any further.
  generalize overtaken.1 = τ, overtaken.2.1 = τ₁, overtaken.2.2.1 = τ₂, overtaken.2.2.2 = τ₃
    at hchecks hscenes
  obtain ⟨havailable, hlength, hrunning, hdone, hlength₂, hops, hops₃, hlast⟩ := hchecks
  refine ⟨τ, τ₁, τ₂, τ₃, ?_, Nat.le_of_eq hlength₂, ?_⟩
  · refine writeReturns_of_scenesOf hscenes havailable ?_ ?_ ?_ ?_
    · rw [hops]
      decide
    · rwa [hlength]
    · rwa [hlength]
    · rw [hlength, hops₃]
      decide
  · obtain ⟨w, hw, hlooked⟩ := Option.bind_eq_some_iff.mp hlast
    obtain ⟨log, rfl⟩ := eq_of_lookedUp? hlooked
    exact ⟨log, hw⟩

end Operator

end ExecutionControl
