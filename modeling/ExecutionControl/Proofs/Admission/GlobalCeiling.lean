import ExecutionControl.Proofs.Admission.Occupation
import ExecutionControl.Proofs.Schedules
import Mathlib.Data.Finset.Card

/-! # The ceiling of the whole system

    The slots of the whole system are counted without a lock of their own. An admission
    that has counted fewer than the ceiling and not yet taken its slot is pending: it may
    still add one slot, whatever the others do meanwhile. The invariant bounds the slots
    together with the pending admissions. At most one admission of each organisation is
    pending, because it holds the lock of its organisation, so that the ceiling is overshot
    by less than the number of organisations; and by nothing if only one admission runs at
    a time.
-/

namespace ExecutionControl

variable {a : Admission} {op : Operation} {s s' : Shared} {g : Stage} {x : Exchange}
  {F : Faults} {C : Scene a.repertoire → Prop} {σ σ' : Scene a.repertoire}

/-! ### Pending admissions -/

/-- Whether a worker may still take a slot of the whole system: it holds a lock, and it has
    counted fewer slots than the ceiling. -/
def Scene.IsPending (σ : Scene a.repertoire) (i : Nat) : Prop :=
  ∃ w c t n, σ.workers[i]? = some w ∧ w.isRunning ∧ Holding a σ.shared.now w c t ∧
    (a.discipline.stageOf w).globalCount = some n ∧ n < a.config.globalLimit

open Classical in
/-- The workers that may still take a slot of the whole system. -/
noncomputable def Scene.pending (σ : Scene a.repertoire) : Finset Nat :=
  (Finset.range σ.workers.length).filter σ.IsPending

theorem mem_pending {i : Nat} : i ∈ σ.pending ↔ σ.IsPending i := by
  simp only [Scene.pending, Finset.mem_filter, Finset.mem_range]
  constructor
  · exact fun h => h.2
  · intro hpending
    have hw := hpending
    obtain ⟨w, _, _, _, hw, _⟩ := hw
    obtain ⟨hi, _⟩ := List.getElem?_eq_some_iff.mp hw
    exact ⟨hi, hpending⟩

/-- The organisation for which a worker admits. -/
def orgOf (σ : Scene a.repertoire) (i : Nat) : Option String :=
  σ.workers[i]?.bind fun w => Operation.admissionOrg? w.op

theorem orgOf_eq {i : Nat} {w : Worker a.repertoire} {c : ExecutionContext} {n : Timestamp}
    (hw : σ.workers[i]? = some w) (hop : w.op = .tryAdmit c n) : orgOf σ i = some c.orgId := by
  simp [orgOf, Operation.admissionOrg?, hw, hop]

/-- No two admissions of one organisation are pending. -/
theorem orgOf_injOn_pending (h : LockInv a σ) : Set.InjOn (orgOf σ) (σ.pending) := by
  intro i hi j hj heq
  obtain ⟨v, c, t, _, hv, _, hhv, _⟩ := mem_pending.mp hi
  obtain ⟨w, d, u, _, hw, _, hhw, _⟩ := mem_pending.mp hj
  obtain ⟨n, hop⟩ := hhv.op
  obtain ⟨m, hop'⟩ := hhw.op
  rw [orgOf_eq hv hop, orgOf_eq hw hop'] at heq
  exact h.exclusive hv hw hhv hhw (Option.some.inj heq)

/-! ### What a worker has counted -/

/-- A slot that is taken uses the count up that allowed it. -/
theorem Stage.globalCount_after_add (hx : x.AddsTo Key.globalSlots) :
    (g.after a x).globalCount = none := by
  obtain ⟨t, member, score, reply, rfl⟩ := hx
  cases reply <;> simp [Stage.after]

/-- A count is that of the slots as they are, or it was known before. -/
theorem Move.globalCount {n : Nat} (h : Move a op s g x s')
    (hn : (g.after a x).globalCount = some n) :
    n = (s'.coord.slots s'.now Key.globalSlots).size ∨
      g.globalCount = some n ∧ (g.after a x).since = g.since := by
  cases h with
  | draw _ _ _ _ _ hg =>
    rw [hg] at hn ⊢
    exact Or.inr ⟨hn, rfl⟩
  -- Whoever takes or gives back a lock knows no count any more.
  | lock _ _ _ _ _ _ _ hg =>
    rw [hg] at hn
    cases hn
  | unlock _ _ _ _ _ _ hg =>
    rw [hg] at hn
    cases hn
  | count key _ _ hg =>
    by_cases hglobal : key = Key.globalSlots
    · rw [hg, if_pos hglobal, hglobal] at hn
      exact Or.inl (Option.some.inj hn).symm
    · rw [hg, if_neg hglobal] at hn ⊢
      exact Or.inr ⟨hn, rfl⟩
  | add key _ _ _ hx _ hg =>
    by_cases hglobal : key = Key.globalSlots
    · rw [hg, if_pos hglobal] at hn
      cases hn
    · rw [hg, if_neg hglobal] at hn ⊢
      exact Or.inr ⟨hn, rfl⟩
  | free _ _ _ _ _ hg =>
    rw [hg] at hn ⊢
    exact Or.inr ⟨hn, rfl⟩
  | other _ hg =>
    obtain ⟨l, hg⟩ := hg
    rw [hg] at hn ⊢
    exact Or.inr ⟨hn, rfl⟩

/-! ### How the pending admissions change -/

theorem pending_of_quiet (hq : σ.Quiet σ') : σ'.pending ⊆ σ.pending := by
  intro i hi
  obtain ⟨v, c, t, n, hv, hrun, hhold, hn, hbelow⟩ := mem_pending.mp hi
  rcases hq.workers i v hv with ⟨_, hfresh⟩ | ⟨w, hw, hop, _, hstage, hrunning⟩
  · rw [hfresh] at hn
    cases hn
  · have hhold' : Holding a σ.shared.now w c t := hhold.of_same hq.now hop (by rw [hstage])
    exact mem_pending.mpr ⟨w, c, t, n, hw, hrunning hrun, hhold', hstage ▸ hn, hbelow⟩

/-- A worker becomes pending only by counting the slots as they are. -/
theorem pending_of_moves {i j : Nat} {w : Worker a.repertoire} (hm : σ.Moves σ' i w x)
    (hj : j ∈ σ'.pending) :
    j ∈ σ.pending ∨
      (σ'.shared.coord.slots σ'.shared.now Key.globalSlots).size < a.config.globalLimit := by
  obtain ⟨v, c, t, n, hv, hrun, hhold, hn, hbelow⟩ := mem_pending.mp hj
  rcases hm.worker_of hv with ⟨rfl, hop, _, hstage⟩ | ⟨_, hv⟩
  · rcases hm.move.globalCount (hstage ▸ hn) with hcount | ⟨hcount, hsince⟩
    · rw [hcount] at hbelow
      exact Or.inr hbelow
    · left
      have hhold' : Holding a σ.shared.now w c t :=
        hhold.of_same hm.now hop (by rw [← hsince, hstage])
      exact mem_pending.mpr ⟨w, c, t, n, hm.worker, hm.running, hhold', hcount, hbelow⟩
  · exact Or.inl (mem_pending.mpr ⟨v, c, t, n, hv, hrun, hhold.of_le hm.now, hn, hbelow⟩)

/-- A prompt admission that asks for a slot of the whole system was pending and is no more. -/
theorem pending_of_add {i : Nat} {w : Worker a.repertoire} (hprompt : a.Prompt σ')
    (hm : σ.Moves σ' i w x) (hx : x.AddsTo Key.globalSlots) :
    i ∈ σ.pending ∧ i ∉ σ'.pending := by
  constructor
  · obtain ⟨c, n, t, hop, hsince, ⟨hkey, _⟩ | ⟨_, m, hcount, hbelow⟩⟩ := hm.of_add hx
    · exact absurd hkey.symm (Key.orgSlots_ne_globalSlots c.orgId)
    · have hhold := (Holding.of_add hm hprompt hop hsince hx).of_le hm.now
      exact mem_pending.mpr ⟨w, c, t, m, hm.worker, hm.running, hhold, hcount, hbelow⟩
  · intro hi
    obtain ⟨v, _, _, n, hv, _, _, hn, _⟩ := mem_pending.mp hi
    rcases hm.worker_of hv with ⟨_, _, _, hstage⟩ | ⟨hne, _⟩
    · rw [hstage, Stage.globalCount_after_add hx] at hn
      cases hn
    · exact hne rfl

/-! ### The invariant -/

/-- The slots and the pending admissions together stay below the ceiling and `k`. -/
def GlobalInv (a : Admission) (k : Nat) (σ : Scene a.repertoire) : Prop :=
  (σ.shared.coord.slots σ.shared.now Key.globalSlots).size + σ.pending.card + 1 ≤
    a.config.globalLimit + k

theorem globalInv_quiet {k : Nat} (h : GlobalInv a k σ) (hq : σ.Quiet σ') :
    GlobalInv a k σ' := by
  have hcard := Finset.card_le_card (pending_of_quiet hq)
  have hsize := size_slots_later σ.shared.coord hq.now Key.globalSlots
  unfold GlobalInv at *
  rw [hq.coord]
  omega

theorem globalInv_moves {k i : Nat} {w : Worker a.repertoire} (h : GlobalInv a k σ)
    (hprompt : a.Prompt σ') (hk : σ'.pending.card ≤ k) (hm : σ.Moves σ' i w x) :
    GlobalInv a k σ' := by
  have hlater := size_slots_later σ.shared.coord hm.now Key.globalSlots
  unfold GlobalInv at *
  by_cases hcounted :
      (σ'.shared.coord.slots σ'.shared.now Key.globalSlots).size < a.config.globalLimit
  · -- There is room below the ceiling itself.
    omega
  · have hsub : σ'.pending ⊆ σ.pending := by
      intro j hj
      exact (pending_of_moves hm hj).resolve_right hcounted
    have hcard := Finset.card_le_card hsub
    rcases hm.move.size_slots Key.isSlots_globalSlots with hle | ⟨hx, hle⟩
    · omega
    · -- The slot that is taken is paid for by the admission that is pending no more.
      obtain ⟨hbefore, hafter⟩ := pending_of_add hprompt hm hx
      have hstrict : σ'.pending.card < σ.pending.card :=
        Finset.card_lt_card ((Finset.ssubset_iff_of_subset hsub).mpr ⟨i, hbefore, hafter⟩)
      omega

theorem globalInv_reachable {k : Nat} (hk : 0 < k) (hprompt : ∀ σ, C σ → a.Prompt σ)
    (hpending : ∀ σ, Reachable F C σ → σ.pending.card ≤ k) (h : Reachable F C σ) :
    GlobalInv a k σ := by
  induction h with
  | @start s hs _ =>
    have hnone : Scene.pending (⟨s, []⟩ : Scene a.repertoire) = ∅ := rfl
    have hslots : s.coord.slots s.now Key.globalSlots = ∅ := CoordStore.slots_of_empty hs
    unfold GlobalInv
    rw [hnone, hslots, Std.ExtTreeMap.size_empty, Finset.card_empty]
    omega
  | step hσ hstep hC ih =>
    rcases hstep.quiet_or_moves hσ with hq | ⟨i, w, x, hm⟩
    · exact globalInv_quiet ih hq
    · exact globalInv_moves ih (hprompt _ hC) (hpending _ (.step hσ hstep hC)) hm

/-! ### The ceiling -/

/-- Every admission is for one of these organisations. -/
def Admission.Among (a : Admission) (orgs : Finset String) (σ : Scene a.repertoire) : Prop :=
  ∀ w ∈ σ.workers, ∀ o ∈ Operation.admissionOrg? w.op, o ∈ orgs

instance (a : Admission) (orgs : Finset String) (σ : Scene a.repertoire) :
    Decidable (a.Among orgs σ) :=
  inferInstanceAs (Decidable (∀ w ∈ σ.workers, _))

/-- Whether a worker is an admission that is under way. -/
def Worker.isAdmitting (w : Worker a.repertoire) : Bool :=
  (Operation.admissionOrg? w.op).isSome && w.isRunning

/-- No two admissions are under way. -/
def Admission.OneAtATime (a : Admission) (σ : Scene a.repertoire) : Prop :=
  σ.workers.Pairwise fun v w => v.isAdmitting → ¬ w.isAdmitting

instance (a : Admission) (σ : Scene a.repertoire) : Decidable (a.OneAtATime σ) :=
  inferInstanceAs (Decidable (σ.workers.Pairwise _))

theorem card_pending_le_orgs {orgs : Finset String} (hlock : LockInv a σ)
    (hamong : a.Among orgs σ) : σ.pending.card ≤ orgs.card := by
  -- Pending admissions are told apart by their organisations.
  rw [← Finset.card_map (Function.Embedding.some (α := String)) (s := orgs)]
  refine Finset.card_le_card_of_injOn (orgOf σ) (fun i hi => ?_) (orgOf_injOn_pending hlock)
  obtain ⟨w, c, t, _, hw, _, hhold, _⟩ := mem_pending.mp hi
  obtain ⟨n, hop⟩ := hhold.op
  rw [orgOf_eq hw hop]
  have hadmits : c.orgId ∈ Operation.admissionOrg? w.op := by rw [hop]; rfl
  have hmem := hamong w (List.mem_of_getElem? hw) c.orgId hadmits
  simpa using hmem

/-- A pending worker is an admission that is under way. -/
theorem isAdmitting_of_pending {i : Nat} (h : i ∈ σ.pending) :
    ∃ w, σ.workers[i]? = some w ∧ w.isAdmitting := by
  obtain ⟨w, c, t, _, hw, hrun, hhold, _⟩ := mem_pending.mp h
  obtain ⟨n, hop⟩ := hhold.op
  refine ⟨w, hw, ?_⟩
  simp [Worker.isAdmitting, Operation.admissionOrg?, hop, hrun]

theorem card_pending_le_one (hone : a.OneAtATime σ) : σ.pending.card ≤ 1 := by
  rw [Finset.card_le_one]
  intro i hi j hj
  obtain ⟨v, hv, hadv⟩ := isAdmitting_of_pending hi
  obtain ⟨w, hw, hadw⟩ := isAdmitting_of_pending hj
  obtain ⟨hilt, rfl⟩ := List.getElem?_eq_some_iff.mp hv
  obtain ⟨hjlt, rfl⟩ := List.getElem?_eq_some_iff.mp hw
  have hapart := List.pairwise_iff_getElem.mp hone
  rcases Nat.lt_trichotomy i j with hlt | heq | hlt
  · exact absurd hadw (hapart i j hilt hjlt hlt hadv)
  · exact heq
  · exact absurd hadv (hapart j i hjlt hilt hlt hadw)

/-- Whatever runs between their requests and whatever fails, prompt admissions of some
    organisations overshoot the ceiling of the whole system by less than the number of
    these organisations; and admissions that run one at a time do not overshoot it. -/
theorem global_ceiling (a : Admission) (F : Faults) (σ : Scene a.repertoire) :
    (∀ orgs : Finset String, orgs.Nonempty →
      Reachable F (fun σ => a.Prompt σ ∧ a.Among orgs σ) σ →
      (σ.shared.coord.slots σ.shared.now Key.globalSlots).size ≤
        a.config.globalLimit + (orgs.card - 1)) ∧
    (Reachable F (fun σ => a.Prompt σ ∧ a.OneAtATime σ) σ →
      (σ.shared.coord.slots σ.shared.now Key.globalSlots).size ≤ a.config.globalLimit) := by
  constructor
  · intro orgs horgs h
    have hpos := Finset.card_pos.mpr horgs
    have hinv : GlobalInv a orgs.card σ := by
      refine globalInv_reachable hpos (fun _ hC => hC.1) (fun σ hσ => ?_) h
      exact card_pending_le_orgs (lockInv_reachable hσ) hσ.condition.2
    unfold GlobalInv at hinv
    omega
  · intro h
    have hinv : GlobalInv a 1 σ := by
      refine globalInv_reachable Nat.one_pos (fun _ hC => hC.1) (fun σ hσ => ?_) h
      exact card_pending_le_one hσ.condition.2
    unfold GlobalInv at hinv
    omega

/-- Two organisations that race for one slot: both count before either takes it. -/
def racingTurns : List (Admission.withCeilings 1 1).repertoire.Turn :=
  [.start (.tryAdmit ⟨"o", "w", "e", "c"⟩ default),
    .start (.tryAdmit ⟨"p", "w", "f", "c"⟩ default)] ++
  List.replicate 10 (.next 0) ++ List.replicate 12 (.next 1) ++ List.replicate 2 (.next 0)

/-- An admission that runs alone. -/
def aloneTurns : List (Admission.withCeilings 1 1).repertoire.Turn :=
  .start (.tryAdmit ⟨"o", "w", "e", "c"⟩ default) :: List.replicate 13 (.next 0)

theorem global_ceiling_racing :
    (∃ σ : Scene (Admission.withCeilings 1 1).repertoire,
      (σ.shared.coord.slots σ.shared.now Key.globalSlots).size = 2 ∧
      (σ.shared.coord.slots σ.shared.now Key.globalSlots).size ≤
        1 + (({"o", "p"} : Finset String).card - 1)) ∧
    ∃ σ : Scene (Admission.withCeilings 1 1).repertoire,
      (σ.shared.coord.slots σ.shared.now Key.globalSlots).size = 1 ∧
      (σ.shared.coord.slots σ.shared.now Key.globalSlots).size ≤ 1 := by
  constructor
  · have hscenes : ∀ σ ∈ Scene.play ⟨{}, []⟩ racingTurns,
        (Admission.withCeilings 1 1).Prompt σ ∧
          (Admission.withCeilings 1 1).Among {"o", "p"} σ := by decide +kernel
    have hreach := reachable_play (F := .any) (.start rfl (hscenes _ List.mem_cons_self)) hscenes
    have hlast := Scene.after_mem_play ⟨{}, []⟩ racingTurns []
    rw [List.append_nil] at hlast
    have hsize : ((Scene.after ⟨{}, []⟩ racingTurns).shared.coord.slots
        (Scene.after ⟨{}, []⟩ racingTurns).shared.now Key.globalSlots).size = 2 := by
      decide +kernel
    exact ⟨_, hsize, (global_ceiling _ .any _).1 {"o", "p"} (Finset.insert_nonempty _ _)
      (hreach _ hlast)⟩
  · have hscenes : ∀ σ ∈ Scene.play ⟨{}, []⟩ aloneTurns,
        (Admission.withCeilings 1 1).Prompt σ ∧
          (Admission.withCeilings 1 1).OneAtATime σ := by decide +kernel
    have hreach := reachable_play (F := .any) (.start rfl (hscenes _ List.mem_cons_self)) hscenes
    have hlast := Scene.after_mem_play ⟨{}, []⟩ aloneTurns []
    rw [List.append_nil] at hlast
    have hsize : ((Scene.after ⟨{}, []⟩ aloneTurns).shared.coord.slots
        (Scene.after ⟨{}, []⟩ aloneTurns).shared.now Key.globalSlots).size = 1 := by
      decide +kernel
    exact ⟨_, hsize, (global_ceiling _ .any _).2 (hreach _ hlast)⟩

end ExecutionControl
