import ExecutionControl.Proofs.Admission.CurrentLimits
import ExecutionControl.Proofs.Admission.Occupancy

/-! # Sweeps and looks do not decide

    A sweep and a look at the occupancy reclaim stale slots, so that other slots are left
    than there would be without them. Admission decides the same all the same:
    `decisions_unaffected` compares two runs that share their admissions and releases.

    Each run is compared with the calls that it shares alone, under the limits that the
    organisations have. The slots that these would leave (`slotsAfter`) are those of the run,
    apart from slots that were stale at some time of it (`Agree`); and of the slots that have
    just been reclaimed at the latest time, none was. Looks at the occupancy cache limits as
    well, which later admissions find, but only those that the organisations have (`Current`).
-/

namespace ExecutionControl

/-! ### Runs and the calls in them -/

/-- An operation that has ended, with the limits that the organisations had when it began. -/
structure Answered extends Completed where
  limits : String → Nat

/-- A call that changes what later admissions are to find, with the limit of its
    organisation. -/
inductive SlotCall where
  | tryAdmit (c : ExecutionContext) (now : Timestamp) (limit : Nat)
  | release (orgId executionId : String)
  deriving DecidableEq

namespace Answered

/-- The call that an operation is; a look or a sweep is none. -/
def call? : Answered → Option SlotCall
  | ⟨⟨.tryAdmit c now, _⟩, limits⟩ => some (.tryAdmit c now (limits c.orgId))
  | ⟨⟨.release o e, _⟩, _⟩ => some (.release o e)
  | _ => none

/-- What an admission answered. -/
def admission? : Answered → Option (Except AdmissionError Decision)
  | ⟨⟨.tryAdmit _ _, result⟩, _⟩ => some result
  | _ => none

/-- The times that the operations of a run were given. -/
def times (h : List Answered) : List Timestamp := h.filterMap fun x => x.op.at?

/-- Whether time does not run backwards in a run, the latest first. -/
def InOrder (h : List Answered) : Prop :=
  (times h).Pairwise fun later earlier => earlier.exact ≤ later.exact

instance (h : List Answered) : Decidable (InOrder h) :=
  inferInstanceAs (Decidable (List.Pairwise _ _))

end Answered

open Answered

namespace Admission

/-- Operations that end one after another without trouble, from some store on, the latest
    first. -/
inductive Continues (a : Admission) (s₀ : Shared) : List Answered → Shared → Prop
  | start : Continues a s₀ [] s₀
  | next {h : List Answered} {s : Shared} {op : Operation} {result : op.Result} {p : Point} :
    Continues a s₀ h s → (a.program op).Ends .never ⟨s, []⟩ (.ok result) p →
    Continues a s₀ (⟨⟨op, result⟩, fun orgId => a.effectiveLimit orgId s⟩ :: h) p.shared

/-! ### The calls alone -/

/-- What is decided on an execution once the stale slots are reclaimed. -/
def verdict (a : Admission) (sets : String → Members) (c : ExecutionContext) (now : Timestamp)
    (limit : Nat) : Decision :=
  a.decisionBy c limit (a.reclaimBoth now c.orgId sets)

/-- The slots after some calls and nothing else. -/
def slotsAfter (a : Admission) (sets : String → Members) : List SlotCall → String → Members
  | [] => sets
  | .tryAdmit c now limit :: calls =>
    setsAfter c now (a.reclaimBoth now c.orgId (a.slotsAfter sets calls))
      (a.verdict (a.slotsAfter sets calls) c now limit)
  | .release o e :: calls => vacate o e (a.slotsAfter sets calls)

/-- What is decided in some calls. -/
def decisions (a : Admission) (sets : String → Members) : List SlotCall → List Decision
  | [] => []
  | .tryAdmit c now limit :: calls =>
    a.verdict (a.slotsAfter sets calls) c now limit :: a.decisions sets calls
  | .release _ _ :: calls => a.decisions sets calls

/-- The occupancy that is reported under a limit. -/
def usageBy (a : Admission) (sets : String → Members) (o : String) (now : Timestamp)
    (limit : Nat) : Usage :=
  ⟨o, (a.reclaimBoth now o sets (Key.orgSlots o)).size, limit,
    (a.reclaimBoth now o sets Key.globalSlots).size, a.config.globalLimit⟩

/-! ### Slots that agree -/

/-- Whether there are the same slots, of those that count at all of these times. -/
def Agree (a : Admission) (times : List Timestamp) (sets sets' : String → Members) : Prop :=
  ∀ (key e : String) (score : Float), (∀ t ∈ times, score > a.cutoff t) →
    ((sets key)[e]? = some score ↔ (sets' key)[e]? = some score)

variable {a : Admission} {times : List Timestamp} {sets sets' sets₀ core : String → Members}
  {now : Timestamp} {key o e : String} {c : ExecutionContext} {h : List Answered} {s s₀ : Shared}
  {op : Operation} {result : op.Result} {log : Log} {p : Point}

theorem Agree.refl : a.Agree times sets sets := fun _ _ _ _ => Iff.rfl

/-- More time may have passed. -/
theorem Agree.later (hagree : a.Agree times sets sets') (now : Timestamp) :
    a.Agree (now :: times) sets sets' := by
  intro key e score hcounts
  exact hagree key e score fun t ht => hcounts t (List.mem_cons_of_mem now ht)

/-- What is reclaimed on one side alone was stale. -/
theorem Agree.reclaim_right (hagree : a.Agree times sets sets') (hnow : now ∈ times)
    (key : String) : a.Agree times sets (a.reclaim now key sets') := by
  intro k e score hcounts
  rw [getElem?_reclaim, hagree k e score hcounts]
  exact ⟨fun hmem => ⟨hmem, fun _ => hcounts now hnow⟩, fun hmem => hmem.1⟩

theorem Agree.reclaimAll_right (hagree : a.Agree times sets sets') (hnow : now ∈ times)
    (keys : List String) :
    a.Agree times sets (keys.foldl (fun m key => a.reclaim now key m) sets') := by
  induction keys generalizing sets' with
  | nil => exact hagree
  | cons key rest ih => exact ih (hagree.reclaim_right hnow key)

theorem Agree.reclaim (hagree : a.Agree times sets sets') (now : Timestamp) (key : String) :
    a.Agree times (a.reclaim now key sets) (a.reclaim now key sets') := by
  intro k e score hcounts
  rw [getElem?_reclaim, getElem?_reclaim, hagree k e score hcounts]

theorem Agree.reclaimBoth (hagree : a.Agree times sets sets') (now : Timestamp) (o : String) :
    a.Agree times (a.reclaimBoth now o sets) (a.reclaimBoth now o sets') :=
  (hagree.reclaim now (Key.orgSlots o)).reclaim now Key.globalSlots

theorem Agree.occupy (hagree : a.Agree times sets sets') (o e : String) (score : Float) :
    a.Agree times (occupy o e score sets) (occupy o e score sets') := by
  intro key member score' hcounts
  rw [getElem?_occupy, getElem?_occupy]
  split_ifs
  · exact Iff.rfl
  · exact hagree key member score' hcounts

theorem Agree.vacate (hagree : a.Agree times sets sets') (o e : String) :
    a.Agree times (vacate o e sets) (vacate o e sets') := by
  intro key member score' hcounts
  rw [getElem?_vacate, getElem?_vacate]
  split_ifs
  · exact Iff.rfl
  · exact hagree key member score' hcounts

/-- A slot that is left at the latest time has counted all the time. -/
theorem Agree.reclaim_eq (hagree : a.Agree times sets sets')
    (hlatest : ∀ t ∈ times, t.exact ≤ now.exact) (key : String) :
    a.reclaim now key sets key = a.reclaim now key sets' key := by
  apply Std.ExtTreeMap.ext_getElem?
  intro e
  apply Option.ext
  intro score
  rw [getElem?_reclaim, getElem?_reclaim]
  refine and_congr_left fun hcounts => hagree key e score fun t ht => ?_
  exact cutoff_lt_of_le (hlatest t ht) (hcounts rfl)

theorem reclaimBoth_orgSlots :
    a.reclaimBoth now o sets (Key.orgSlots o) =
      a.reclaim now (Key.orgSlots o) sets (Key.orgSlots o) := by
  unfold Admission.reclaimBoth
  rw [Admission.reclaim, Function.update_of_ne (Key.orgSlots_ne_globalSlots o)]

/-- What is counted at the latest time is the same on both sides. -/
theorem Agree.reclaimBoth_eq (hagree : a.Agree times sets sets')
    (hlatest : ∀ t ∈ times, t.exact ≤ now.exact) (o : String) :
    a.reclaimBoth now o sets (Key.orgSlots o) = a.reclaimBoth now o sets' (Key.orgSlots o) ∧
      a.reclaimBoth now o sets Key.globalSlots = a.reclaimBoth now o sets' Key.globalSlots := by
  constructor
  · rw [reclaimBoth_orgSlots, reclaimBoth_orgSlots]
    exact hagree.reclaim_eq hlatest (Key.orgSlots o)
  · exact (hagree.reclaim now (Key.orgSlots o)).reclaim_eq hlatest Key.globalSlots

theorem Agree.verdict_eq (hagree : a.Agree times sets sets')
    (hlatest : ∀ t ∈ times, t.exact ≤ now.exact) (c : ExecutionContext) (limit : Nat) :
    a.verdict sets c now limit = a.verdict sets' c now limit := by
  obtain ⟨horg, hglobal⟩ := hagree.reclaimBoth_eq hlatest c.orgId
  rw [verdict, verdict, decisionBy, decisionBy, horg, hglobal]

theorem Agree.usageBy_eq (hagree : a.Agree times sets sets')
    (hlatest : ∀ t ∈ times, t.exact ≤ now.exact) (o : String) (limit : Nat) :
    a.usageBy sets o now limit = a.usageBy sets' o now limit := by
  obtain ⟨horg, hglobal⟩ := hagree.reclaimBoth_eq hlatest o
  rw [usageBy, usageBy, horg, hglobal]

/-! ### Operations and runs -/

/-- The slots of a run, and what was decided in it, beside its calls alone. -/
structure Alike (a : Admission) (sets₀ : String → Members) (h : List Answered)
    (sets : String → Members) : Prop where
  slots : a.Agree (Answered.times h) (a.slotsAfter sets₀ (h.filterMap call?)) sets
  decided : h.filterMap admission? = (a.decisions sets₀ (h.filterMap call?)).map .ok

theorem Alike.start : a.Alike sets [] sets := ⟨Agree.refl, rfl⟩

/-- The slots after an admission. -/
theorem Agree.setsAfter (hagree : a.Agree times core sets)
    (hlatest : ∀ t ∈ times, t.exact ≤ now.exact) (c : ExecutionContext) (limit : Nat) :
    a.Agree times
      (setsAfter c now (a.reclaimBoth now c.orgId core) (a.verdict core c now limit))
      (setsAfter c now (a.reclaimBoth now c.orgId sets) (a.verdict sets c now limit)) := by
  rw [hagree.verdict_eq hlatest c limit]
  have hcounted := hagree.reclaimBoth now c.orgId
  cases a.verdict sets c now limit with
  | admitted degraded => exact hcounted.occupy c.orgId c.executionId now.score
  | rejected rejection => exact hcounted

/-- Every operation that looks up the limit that its organisation has does what its call does
    alone, if it is one, and nothing otherwise, but for slots that are stale. -/
theorem Alike.effect {limits : String → Nat} (halike : a.Alike sets₀ h sets)
    (hlatest : ∀ now ∈ op.at?, ∀ t ∈ Answered.times h, t.exact ≤ now.exact)
    (hlooked : ∀ orgId n, op.looksUp? = some orgId → a.limitRead op log = some n →
      n = limits orgId)
    (heffect : a.Effect log sets sets' op result) :
    a.Alike sets₀ (⟨⟨op, result⟩, limits⟩ :: h) sets' := by
  obtain ⟨hagree, hdecided⟩ := halike
  -- The time of the operation is the latest of the run.
  have hnow : ∀ now ∈ op.at?, ∀ t ∈ now :: Answered.times h, t.exact ≤ now.exact := by
    intro now hat t ht
    rcases List.mem_cons.mp ht with rfl | ht
    · exact Int.le_refl _
    · exact hlatest now hat t ht
  cases op with
  | tryAdmit c now =>
    obtain ⟨limit, hlimit, rfl, rfl⟩ := heffect
    obtain rfl : limit = limits c.orgId := hlooked c.orgId limit rfl hlimit
    have hlater := hagree.later now
    have hverdict := hlater.verdict_eq (hnow now rfl) c (limits c.orgId)
    refine ⟨hlater.setsAfter (hnow now rfl) c (limits c.orgId), ?_⟩
    show Except.ok (a.verdict sets c now (limits c.orgId)) :: h.filterMap admission? = _
    rw [hdecided, ← hverdict]
    rfl
  | release o e =>
    obtain ⟨-, rfl⟩ := heffect
    exact ⟨Agree.vacate hagree o e, hdecided⟩
  | usage o now =>
    obtain ⟨limit, -, -, rfl⟩ := heffect
    have horg := (hagree.later now).reclaim_right List.mem_cons_self (Key.orgSlots o)
    exact ⟨horg.reclaim_right List.mem_cons_self Key.globalSlots, hdecided⟩
  | sweepOrg o now =>
    obtain rfl := heffect
    exact ⟨(hagree.later now).reclaim_right List.mem_cons_self (Key.orgSlots o), hdecided⟩
  | sweepAll now =>
    obtain ⟨keys, -, rfl⟩ := heffect
    have hall := (hagree.later now).reclaimAll_right List.mem_cons_self keys
    exact ⟨hall.reclaim_right List.mem_cons_self Key.globalSlots, hdecided⟩
  | setLimit o n =>
    obtain rfl := heffect
    exact ⟨hagree, hdecided⟩
  | deleteLimit o =>
    obtain rfl := heffect
    exact ⟨hagree, hdecided⟩

/-- What is asked of the time of the last operation, and of the run before it. -/
theorem inOrder_cons {x : Answered} (horder : InOrder (x :: h)) :
    InOrder h ∧ ∀ now ∈ x.op.at?, ∀ t ∈ Answered.times h, t.exact ≤ now.exact := by
  unfold InOrder Answered.times at horder
  rw [List.filterMap_cons] at horder
  cases hat : x.op.at? with
  | none =>
    rw [hat] at horder
    exact ⟨horder, fun now hnow => by cases hnow⟩
  | some now =>
    rw [hat] at horder
    obtain ⟨hlast, hrest⟩ := List.pairwise_cons.mp horder
    refine ⟨hrest, fun n hn t ht => ?_⟩
    obtain rfl : now = n := Option.some.inj hn
    exact hlast t ht

/-- A run is like its calls alone, and leaves no limit cached but those that the organisations
    have. -/
theorem Continues.alike (hruns : a.Continues s₀ h s) (hstart : s₀.coord.Healthy sets₀ none)
    (hcurrent : a.Current s₀) (horder : InOrder h) :
    ∃ sets, s.coord.Healthy sets none ∧ a.Current s ∧ a.Alike sets₀ h sets := by
  induction hruns with
  | start => exact ⟨sets₀, hstart, hcurrent, Alike.start⟩
  | next _ hends ih =>
    obtain ⟨hbefore, hlatest⟩ := inOrder_cons horder
    obtain ⟨sets, hhealthy, hcurrent, halike⟩ := ih hbefore
    obtain ⟨hcurrent', hlooked⟩ := current_program hcurrent hhealthy.available hends
    obtain ⟨sets', hhealthy', heffect⟩ :=
      (hends.of_never.of_ensures (effect_program hhealthy)).1 _ rfl
    exact ⟨sets', hhealthy', hcurrent', halike.effect hlatest hlooked heffect⟩

/-- A look at the occupancy after a run reports what it would after the calls alone. -/
theorem Alike.usage {result : (Operation.usage o now).Result} (halike : a.Alike sets₀ h sets)
    (hhealthy : s.coord.Healthy sets none) (hcurrent : a.Current s)
    (hlatest : ∀ t ∈ Answered.times h, t.exact ≤ now.exact)
    (hends : (a.program (.usage o now)).Ends .never ⟨s, []⟩ (.ok result) p) :
    result = .ok (a.usageBy (a.slotsAfter sets₀ (h.filterMap call?)) o now
      (a.effectiveLimit o s)) := by
  obtain ⟨-, hlooked⟩ := current_program hcurrent hhealthy.available hends
  obtain ⟨sets', -, limit, hlimit, hresult, -⟩ :=
    (hends.of_never.of_ensures (effect_program hhealthy)).1 _ rfl
  rw [halike.slots.usageBy_eq hlatest o, ← hlooked o limit rfl hlimit]
  exact hresult

/-- Two runs without trouble that start with the same slots and with no limits cached but
    those that the organisations have. They share their admissions and releases, with their
    times and the limits that the organisations have then, whatever looks and sweeps and
    changes of limits stand between these. Every admission decides the same in both, with the
    same counts, and a look at the occupancy after both reports the same under the same limit.
    Nothing that is asked next goes unanswered, unless a span reaches beyond the clock. -/
theorem decisions_unaffected (a : Admission) (sets : String → Members) (s₀ s₀' s s' : Shared)
    (h h' : List Answered) (hstart : s₀.coord.Healthy sets none)
    (hstart' : s₀'.coord.Healthy sets none) (hcurrent : a.Current s₀)
    (hcurrent' : a.Current s₀') (hruns : a.Continues s₀ h s) (hruns' : a.Continues s₀' h' s')
    (horder : InOrder h) (horder' : InOrder h')
    (hcalls : h.filterMap call? = h'.filterMap call?) :
    (∃ decided : List Decision, h.filterMap admission? = decided.map .ok ∧
      h'.filterMap admission? = decided.map .ok) ∧
    (∀ (o : String) (now : Timestamp) (result result' : Except CoordError Usage) (p p' : Point),
      (a.program (.usage o now)).Ends .never ⟨s, []⟩ (.ok result) p →
      (a.program (.usage o now)).Ends .never ⟨s', []⟩ (.ok result') p' →
      a.effectiveLimit o s = a.effectiveLimit o s' →
      (∀ t ∈ Answered.times h ++ Answered.times h', t.exact ≤ now.exact) →
      ∃ usage, result = .ok usage ∧ result' = .ok usage) ∧
    ∀ (op : Operation) (o : Overflow) (p : Point),
      (a.program op).Ends .never ⟨s, []⟩ (.error o) p ∨
        (a.program op).Ends .never ⟨s', []⟩ (.error o) p → a.BeyondClock o p := by
  obtain ⟨left, hhealthy, hleft, halike⟩ := hruns.alike hstart hcurrent horder
  obtain ⟨right, hhealthy', hright, halike'⟩ := hruns'.alike hstart' hcurrent' horder'
  have hdecided := halike'.decided
  rw [← hcalls] at hdecided
  refine ⟨⟨_, halike.decided, hdecided⟩, ?_, ?_⟩
  · intro o now result result' p p' hends hends' hlimit hlatest
    have husage := halike.usage hhealthy hleft
      (fun t ht => hlatest t (List.mem_append_left _ ht)) hends
    have husage' := halike'.usage hhealthy' hright
      (fun t ht => hlatest t (List.mem_append_right _ ht)) hends'
    -- Both reports are those after the same calls.
    rw [← hcalls, ← hlimit] at husage'
    exact ⟨_, husage, husage'⟩
  · rintro op o p (hends | hends)
    · exact (hends.of_never.of_ensures (effect_program hhealthy)).2 o rfl
    · exact (hends.of_never.of_ensures (effect_program hhealthy')).2 o rfl

/-- The operations that end when these are run one after another without delay, the latest
    first, and the store after them. -/
def performed (a : Admission) (s₀ : Shared) : List Operation → List Answered × Shared
  | [] => ([], s₀)
  | op :: past =>
    match a.performed s₀ past with
    | (h, s) =>
      match (a.program op).run (Point.answer fun _ => none) ⟨s, []⟩ with
      | (.ok result, p) =>
        (⟨⟨op, result⟩, fun orgId => a.effectiveLimit orgId s⟩ :: h, p.shared)
      | (.error _, _) => (h, s)

theorem continues_performed (ops : List Operation) :
    a.Continues s₀ (a.performed s₀ ops).1 (a.performed s₀ ops).2 := by
  induction ops with
  | nil => exact .start
  | cons op past ih =>
    unfold performed
    generalize a.performed s₀ past = performed at ih ⊢
    obtain ⟨h, s⟩ := performed
    rcases hrun : (a.program op).run (Point.answer fun _ => none) ⟨s, []⟩ with ⟨o | result, p⟩
    · simp only [hrun]
      exact ih
    · have hends : (a.program op).Ends .never ⟨s, []⟩
          ((a.program op).run (Point.answer fun _ => none) ⟨s, []⟩).1
          ((a.program op).run (Point.answer fun _ => none) ⟨s, []⟩).2 :=
        Program.ends_run (fun _ _ h => by cases h) _ _
      rw [hrun] at hends
      simp only [hrun]
      exact .next ih hends

/-- Two executions, the second of which is admitted once the slot of the first is stale. -/
def admissionsAlone : List Operation :=
  [.tryAdmit ⟨"o", "w", "f", "c"⟩ (.ofMillis 21600000),
    .tryAdmit ⟨"o", "w", "e", "c"⟩ (.ofMillis 0)]

/-- A look that caches the limit comes before them, and a sweep in between. -/
def admissionsAndSweep : List Operation :=
  [.tryAdmit ⟨"o", "w", "f", "c"⟩ (.ofMillis 21600000), .sweepAll (.ofMillis 21600000),
    .tryAdmit ⟨"o", "w", "e", "c"⟩ (.ofMillis 0), .usage "o" (.ofMillis 0)]

theorem decisions_unaffected_swept :
    ∃ (h h' : List Answered) (s s' : Shared), (withCeilings 1 1).Continues {} h s ∧
      (withCeilings 1 1).Continues {} h' s' ∧ h.length = 2 ∧ h'.length = 4 ∧
      ∃ decided : List Decision, decided.length = 2 ∧ h.filterMap admission? = decided.map .ok ∧
        h'.filterMap admission? = decided.map .ok := by
  have hlengths : ((withCeilings 1 1).performed {} admissionsAlone).1.length = 2 ∧
      ((withCeilings 1 1).performed {} admissionsAndSweep).1.length = 4 := by decide +kernel
  have horders : InOrder ((withCeilings 1 1).performed {} admissionsAlone).1 ∧
      InOrder ((withCeilings 1 1).performed {} admissionsAndSweep).1 := by decide +kernel
  have hcalls : ((withCeilings 1 1).performed {} admissionsAlone).1.filterMap call? =
      ((withCeilings 1 1).performed {} admissionsAndSweep).1.filterMap call? := by decide +kernel
  have hcount : (((withCeilings 1 1).performed {} admissionsAlone).1.filterMap
      admission?).length = 2 := by decide +kernel
  obtain ⟨⟨decided, hdecided, hdecided'⟩, -⟩ :=
    decisions_unaffected (withCeilings 1 1) (fun _ => ∅) {} {} _ _ _ _ (.of_empty rfl rfl)
      (.of_empty rfl rfl) (.of_empty rfl) (.of_empty rfl) (continues_performed admissionsAlone)
      (continues_performed admissionsAndSweep) horders.1 horders.2 hcalls
  rw [hdecided, List.length_map] at hcount
  exact ⟨_, _, _, _, continues_performed admissionsAlone, continues_performed admissionsAndSweep,
    hlengths.1, hlengths.2, decided, hcount, hdecided, hdecided'⟩

end Admission

end ExecutionControl
