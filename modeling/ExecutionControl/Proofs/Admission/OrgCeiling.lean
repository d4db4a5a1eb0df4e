import ExecutionControl.Proofs.Admission.Occupation
import ExecutionControl.Proofs.Schedules

/-! # The ceiling of an organisation

    An admission counts the slots of its organisation and takes one only if the count lies
    below the ceiling that it reads afterwards. While it holds the lock nobody else takes
    a slot of that organisation, so that the count is still an upper bound when the slot
    is taken (`OrgInv`). Counting and taking are requests of their own, between which any
    number of releases, reads, sweeps and admissions of other organisations may run, and
    every one of them may fail.
-/

namespace ExecutionControl

variable {a : Admission} {op : Operation} {s s' : Shared} {g : Stage} {x : Exchange}
  {F : Faults} {σ σ' : Scene a.repertoire}

/-! ### What a worker has counted -/

/-- A slot that is taken uses the count up that allowed it. -/
theorem Stage.orgCount_after_add {key : String} (hx : x.AddsTo key) (hkey : key ≠ Key.globalSlots) :
    (g.after a x).orgCount = none := by
  obtain ⟨t, member, score, reply, rfl⟩ := hx
  cases reply <;> simp [Stage.after, hkey]

/-- A count is that of the slots as they are, or it was known before. -/
theorem Move.orgCount {n : Nat} (h : Move a op s g x s')
    (hn : (g.after a x).orgCount = some n) :
    (∃ key, (∀ c m, op = .tryAdmit c m → key = Key.orgSlots c.orgId) ∧
        n = (s'.coord.slots s'.now key).size) ∨
      g.orgCount = some n ∧ (g.after a x).since = g.since := by
  cases h with
  | draw _ _ _ _ _ hg =>
    rw [hg] at hn ⊢
    exact Or.inr ⟨hn, rfl⟩
  -- Whoever takes or gives back a lock knows no count any more.
  | lock _ _ _ _ _ _ _ hg =>
    rw [hg] at hn
    cases hn
  | unlock _ _ _ _ _ _ hg =>
    rw [hg] at hn
    cases hn
  | count key hkey _ hg =>
    by_cases hglobal : key = Key.globalSlots
    · rw [hg, if_pos hglobal] at hn ⊢
      exact Or.inr ⟨hn, rfl⟩
    · rw [hg, if_neg hglobal] at hn
      refine Or.inl ⟨key, fun c m hop => ?_, (Option.some.inj hn).symm⟩
      rcases hkey c m hop with horg | h
      · exact horg
      · exact absurd h hglobal
  | add key _ _ _ hx _ hg =>
    by_cases hglobal : key = Key.globalSlots
    · rw [hg, if_pos hglobal] at hn ⊢
      exact Or.inr ⟨hn, rfl⟩
    · rw [Stage.orgCount_after_add hx hglobal] at hn
      cases hn
  | free _ _ _ _ _ hg =>
    rw [hg] at hn ⊢
    exact Or.inr ⟨hn, rfl⟩
  | other _ hg =>
    obtain ⟨l, hg⟩ := hg
    rw [hg] at hn ⊢
    exact Or.inr ⟨hn, rfl⟩

/-! ### The invariant -/

/-- What an admission that holds the lock has counted is still an upper bound. -/
def OrgInv (a : Admission) (σ : Scene a.repertoire) : Prop :=
  ∀ (i : Nat) w c t n, σ.workers[i]? = some w → Holding a σ.shared.now w c t →
    (a.discipline.stageOf w).orgCount = some n →
    (σ.shared.coord.slots σ.shared.now (Key.orgSlots c.orgId)).size ≤ n

theorem orgInv_quiet (h : OrgInv a σ) (hq : σ.Quiet σ') : OrgInv a σ' := by
  intro i v c t n hv hhold hn
  rcases hq.workers i v hv with ⟨_, hfresh⟩ | ⟨w, hw, hop, _, hstage, _⟩
  · rw [hfresh] at hn
    cases hn
  · have hhold' : Holding a σ.shared.now w c t := hhold.of_same hq.now hop (by rw [hstage])
    have hbound := h i w c t n hw hhold' (hstage ▸ hn)
    rw [hq.coord]
    exact le_trans (size_slots_later _ hq.now _) hbound

/-- Nobody else takes a slot of an organisation whose lock is held. -/
theorem size_slots_of_held {i j : Nat} {v w : Worker a.repertoire} {c : ExecutionContext}
    {t : Moment} (hlock : LockInv a σ) (hprompt : a.Prompt σ') (hm : σ.Moves σ' i w x)
    (hv : σ.workers[j]? = some v) (hj : j ≠ i) (hhold : Holding a σ'.shared.now v c t) :
    (σ'.shared.coord.slots σ'.shared.now (Key.orgSlots c.orgId)).size ≤
      (σ.shared.coord.slots σ'.shared.now (Key.orgSlots c.orgId)).size := by
  rcases hm.move.size_slots (Key.isSlots_orgSlots c.orgId) with
    hle | ⟨hx, _⟩
  · exact hle
  · -- Whoever takes a slot holds the lock, and that is one worker only.
    obtain ⟨d, m, u, hop, hsince, ⟨hkey, _⟩ | ⟨hkey, _⟩⟩ := hm.of_add hx
    · have hhold' := (Holding.of_add hm hprompt hop hsince hx).of_le hm.now
      have horg := Key.orgSlots_injective hkey
      exact absurd (hlock.exclusive hv hm.worker (hhold.of_le hm.now) hhold' horg) hj
    · exact absurd hkey (Key.orgSlots_ne_globalSlots c.orgId)

theorem orgInv_moves {i : Nat} {w : Worker a.repertoire} (h : OrgInv a σ) (hlock : LockInv a σ)
    (hprompt : a.Prompt σ') (hm : σ.Moves σ' i w x) : OrgInv a σ' := by
  intro j v c t n hv hhold hn
  have hlater := size_slots_later σ.shared.coord hm.now (Key.orgSlots c.orgId)
  rcases hm.worker_of hv with ⟨rfl, hop, _, hstage⟩ | ⟨hj, hv⟩
  · obtain ⟨m, hadmit⟩ := hhold.op
    rw [hop] at hadmit
    rcases hm.move.orgCount (hstage ▸ hn) with ⟨key, hkey, hcount⟩ | ⟨hcount, hsince⟩
    · rw [hkey c m hadmit] at hcount
      exact le_of_eq hcount.symm
    · -- The worker knew the count before, and has not taken its slot in the meantime.
      have hhold' : Holding a σ.shared.now w c t :=
        hhold.of_same hm.now hop (by rw [← hsince, hstage])
      have hbound := h j w c t n hm.worker hhold' hcount
      rcases hm.move.size_slots (Key.isSlots_orgSlots c.orgId) with hle | ⟨hx, _⟩
      · exact le_trans hle (le_trans hlater hbound)
      · rw [hstage, Stage.orgCount_after_add hx (Key.orgSlots_ne_globalSlots c.orgId)] at hn
        cases hn
  · have hbound := h j v c t n hv (hhold.of_le hm.now) hn
    exact le_trans (size_slots_of_held hlock hprompt hm hv hj hhold) (le_trans hlater hbound)

theorem orgInv_reachable (h : Reachable F a.Prompt σ) : OrgInv a σ := by
  induction h with
  | start _ _ => intro i w c t n hw; cases hw
  | step hσ hstep hprompt ih =>
    rcases hstep.quiet_or_moves hσ with hq | ⟨i, w, x, hm⟩
    · exact orgInv_quiet ih hq
    · exact orgInv_moves ih (lockInv_reachable hσ) hprompt hm

/-! ### The ceiling -/

/-- A slot is asked for only below the ceiling that the admission has read. -/
theorem size_slots_of_add {i : Nat} {w : Worker a.repertoire} {c : ExecutionContext}
    {n : Timestamp} (hσ : Reachable F a.Prompt σ) (hprompt : a.Prompt σ')
    (hm : σ.Moves σ' i w x) (hop : w.op = .tryAdmit c n)
    (hx : x.AddsTo (Key.orgSlots c.orgId)) :
    ∃ limit, (a.discipline.stageOf w).limit = some limit ∧
      (σ'.shared.coord.slots σ'.shared.now (Key.orgSlots c.orgId)).size ≤ limit := by
  obtain ⟨d, m, t, hop', hsince, ⟨_, count, limit, hcount, hlimit, hbelow⟩ | ⟨hkey, _⟩⟩ :=
    hm.of_add hx
  · rw [hop] at hop'
    cases hop'
    have hhold := (Holding.of_add hm hprompt hop hsince hx).of_le hm.now
    have hbound := orgInv_reachable hσ i w c t count hm.worker hhold hcount
    have hlater := size_slots_later σ.shared.coord hm.now (Key.orgSlots c.orgId)
    refine ⟨limit, hlimit, ?_⟩
    rcases hm.move.size_slots (Key.isSlots_orgSlots c.orgId) with hle | ⟨_, hle⟩ <;> omega
  · exact absurd hkey (Key.orgSlots_ne_globalSlots c.orgId)

/-- Every admission of an organisation that has read a ceiling has read this one. -/
def Admission.ReadsLimit (a : Admission) (o : String) (limit : Nat) (σ : Scene a.repertoire) :
    Prop :=
  ∀ w ∈ σ.workers, Operation.admissionOrg? w.op = some o →
    ∀ l ∈ (a.discipline.stageOf w).limit, l = limit

instance (a : Admission) (o : String) (limit : Nat) (σ : Scene a.repertoire) :
    Decidable (a.ReadsLimit o limit σ) :=
  inferInstanceAs (Decidable (∀ w ∈ σ.workers, _))

theorem size_slots_le_of_readsLimit {o : String} {limit : Nat}
    (h : Reachable F (fun σ => a.Prompt σ ∧ a.ReadsLimit o limit σ) σ) :
    (σ.shared.coord.slots σ.shared.now (Key.orgSlots o)).size ≤ limit := by
  induction h with
  | start hs _ =>
    rw [CoordStore.slots_of_empty hs, Std.ExtTreeMap.size_empty]
    exact Nat.zero_le limit
  | @step σ σ' hσ hstep hC ih =>
    have hlater : ∀ hle : σ.shared.now ≤ σ'.shared.now, _ :=
      fun hle => size_slots_later σ.shared.coord hle (Key.orgSlots o)
    rcases hstep.quiet_or_moves hσ with hq | ⟨i, w, x, hm⟩
    · rw [hq.coord]
      exact le_trans (hlater hq.now) ih
    -- Only an admission of this organisation lets its set grow, and it has checked the limit.
    · rcases hm.move.size_slots (Key.isSlots_orgSlots o) with hle | ⟨hx, _⟩
      · exact le_trans hle (le_trans (hlater hm.now) ih)
      · obtain ⟨c, n, t, hop, _, ⟨hkey, _⟩ | ⟨hkey, _⟩⟩ := hm.of_add hx
        · have horg := Key.orgSlots_injective hkey
          subst horg
          have hprompt := hσ.mono fun _ h => h.1
          obtain ⟨l, hl, hle⟩ := size_slots_of_add hprompt hC.1 hm hop hx
          have hadmits : Operation.admissionOrg? w.op = some c.orgId := by rw [hop]; rfl
          have hmem := List.mem_of_getElem? hm.worker
          rw [hσ.condition.2 w hmem hadmits l hl] at hle
          exact hle
        · exact absurd hkey (Key.orgSlots_ne_globalSlots o)

/-- Whatever runs between its requests and whatever fails, a prompt admission that asks for
    a slot of its organisation leaves no more slots there than the ceiling that it has
    read; and while all admissions of an organisation read one ceiling, it never has more
    slots than that. -/
theorem org_ceiling (a : Admission) (F : Faults) :
    (∀ (σ σ' : Scene a.repertoire) (i : Nat) (w w' : Worker a.repertoire)
        (c : ExecutionContext) (n : Timestamp) (x : Exchange),
      Reachable F a.Prompt σ → σ.Step F σ' → a.Prompt σ' → σ.workers[i]? = some w →
      σ'.workers[i]? = some w' → w.op = .tryAdmit c n → w'.log = x :: w.log →
      x.AddsTo (Key.orgSlots c.orgId) →
      ∃ limit, (a.discipline.stageOf w).limit = some limit ∧
        (σ'.shared.coord.slots σ'.shared.now (Key.orgSlots c.orgId)).size ≤ limit) ∧
    ∀ (o : String) (limit : Nat) (σ : Scene a.repertoire),
      Reachable F (fun σ => a.Prompt σ ∧ a.ReadsLimit o limit σ) σ →
      (σ.shared.coord.slots σ.shared.now (Key.orgSlots o)).size ≤ limit := by
  refine ⟨?_, fun o limit σ h => size_slots_le_of_readsLimit h⟩
  intro σ σ' i w w' c n x hσ hstep hprompt hw hw' hop hlog hx
  rcases hstep.quiet_or_moves hσ with hq | ⟨j, v, y, hm⟩
  · -- A quiet step leaves the log of every worker as it was.
    rcases hq.workers i w' hw' with ⟨hnone, _⟩ | ⟨u, hu, _, hsame, _⟩
    · rw [hw] at hnone
      cases hnone
    · rw [hw] at hu
      cases hu
      rw [hsame] at hlog
      exact absurd hlog.symm (List.cons_ne_self x w.log)
  · rcases hm.worker_of hw' with ⟨rfl, _, hlog', _⟩ | ⟨_, hsame⟩
    · have hv := hm.worker
      rw [hw] at hv
      cases hv
      rw [hlog] at hlog'
      cases hlog'
      exact size_slots_of_add hσ hprompt hm hop hx
    · rw [hw] at hsame
      cases hsame
      exact absurd hlog.symm (List.cons_ne_self x w.log)

/-- What an admission that is over has decided. -/
def Worker.decided? {a : Admission} (w : Worker a.repertoire) : Option Decision :=
  match w with
  | ⟨.tryAdmit _ _, .ok (.done (.ok d)), _⟩ => some d
  | _ => none

/-- Two admissions of an organisation with one slot take turns, until the first one asks for
    the slot; the second one has found the lock taken three times by then. -/
def racingForSlot : List (Admission.withCeilings 1 1).repertoire.Turn :=
  [.start (.tryAdmit ⟨"o", "w", "e", "c"⟩ default),
    .start (.tryAdmit ⟨"o", "w", "f", "c"⟩ default)] ++
  (List.replicate 10 [.next 0, .next 1]).flatten

/-- The first admission takes the slot and gives the lock back, and the second one counts. -/
def countingSlot : List (Admission.withCeilings 1 1).repertoire.Turn :=
  List.replicate 3 (.next 0) ++ List.replicate 7 (.next 1)

theorem org_ceiling_one_slot :
    ∃ (σ σ' σ'' : Scene (Admission.withCeilings 1 1).repertoire) (w : Worker _),
      (∀ v ∈ σ.workers, v.isRunning) ∧
      σ.workers.map (fun v => (v.op : Operation)) =
        [.tryAdmit ⟨"o", "w", "e", "c"⟩ default, .tryAdmit ⟨"o", "w", "f", "c"⟩ default] ∧
      σ.Step .any σ' ∧ σ.workers[0]? = some w ∧
      (∃ limit, ((Admission.withCeilings 1 1).discipline.stageOf w).limit = some limit ∧
        (σ'.shared.coord.slots σ'.shared.now (Key.orgSlots "o")).size ≤ limit) ∧
      σ''.workers.map Worker.decided? =
        [some (.admitted false), some (.rejected ⟨.orgLimitExceeded, 1, 1⟩)] ∧
      (σ''.shared.coord.slots σ''.shared.now (Key.orgSlots "o")).size = 1 ∧
      (σ''.shared.coord.slots σ''.shared.now (Key.orgSlots "o")).size ≤ 1 := by
  have hscenes : ∀ σ ∈ Scene.play ⟨{}, []⟩ (racingForSlot ++ countingSlot),
      (Admission.withCeilings 1 1).Prompt σ ∧
        (Admission.withCeilings 1 1).ReadsLimit "o" 1 σ := by decide +kernel
  have hreach := reachable_play (F := .any) (.start rfl (hscenes _ List.mem_cons_self)) hscenes
  have hbefore := hreach _ (Scene.after_mem_play _ racingForSlot countingSlot)
  have hlater : Reachable .any _ (Scene.after ⟨{}, []⟩ (racingForSlot ++ countingSlot)) :=
    hreach _ (by
      have hmem := Scene.after_mem_play ⟨{}, []⟩ (racingForSlot ++ countingSlot) []
      rwa [List.append_nil] at hmem)
  have hcondition := hscenes _ (Scene.after_mem_play _ (racingForSlot ++ [.next 0])
    (List.replicate 2 (.next 0) ++ List.replicate 7 (.next 1)))
  have hnext : Scene.after ⟨{}, []⟩ (racingForSlot ++ [.next 0]) =
      (Scene.after ⟨{}, []⟩ racingForSlot).turn (.next 0) := by
    rw [Scene.after, Scene.after, List.foldl_append, List.foldl_cons, List.foldl_nil]
  rw [hnext] at hcondition
  have hasks : (Scene.after ⟨{}, []⟩ racingForSlot).asksForSlot 0 (Key.orgSlots "o") ∧
      (∀ v ∈ (Scene.after ⟨{}, []⟩ racingForSlot).workers, v.isRunning) ∧
      (Scene.after ⟨{}, []⟩ racingForSlot).workers.map (fun v => (v.op : Operation)) =
        [.tryAdmit ⟨"o", "w", "e", "c"⟩ default, .tryAdmit ⟨"o", "w", "f", "c"⟩ default] := by
    decide +kernel
  have hdecided : (Scene.after ⟨{}, []⟩ (racingForSlot ++ countingSlot)).workers.map
        Worker.decided? =
        [some (.admitted false), some (.rejected ⟨.orgLimitExceeded, 1, 1⟩)] ∧
      ((Scene.after ⟨{}, []⟩ (racingForSlot ++ countingSlot)).shared.coord.slots
        (Scene.after ⟨{}, []⟩ (racingForSlot ++ countingSlot)).shared.now
        (Key.orgSlots "o")).size = 1 := by decide +kernel
  -- The scenes are not computed any further.
  generalize Scene.after ⟨{}, []⟩ racingForSlot = σ at hbefore hasks hcondition
  generalize Scene.after ⟨{}, []⟩ (racingForSlot ++ countingSlot) = σ'' at hlater hdecided
  obtain ⟨hasks, hrunning, hops⟩ := hasks
  obtain ⟨w, w', x, hw, hw', hlog, hx, hstep⟩ := Scene.turn_of_asksForSlot .any hasks
  have hop : w.op = .tryAdmit ⟨"o", "w", "e", "c"⟩ default := by
    have hfirst := congrArg (·[0]?) hops
    simp only [List.getElem?_map, hw, Option.map_some] at hfirst
    exact Option.some.inj hfirst
  refine ⟨σ, _, σ'', w, hrunning, hops, hstep, hw, ?_, hdecided.1, hdecided.2, ?_⟩
  · exact (org_ceiling _ .any).1 σ _ 0 w w' ⟨"o", "w", "e", "c"⟩ default x
      (hbefore.mono fun _ h => h.1) hstep hcondition.1 hw hw' hop hlog hx
  · exact (org_ceiling _ .any).2 "o" 1 σ'' hlater

end ExecutionControl
