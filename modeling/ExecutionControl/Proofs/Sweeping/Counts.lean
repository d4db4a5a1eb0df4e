import ExecutionControl.Proofs.Admission.Operations
import ExecutionControl.Proofs.Losses
import ExecutionControl.Sweeping.Sweeper

/-! # What sweeps report and what they remove

    A sweep purges one set after another and adds up what the purges answer, so that a sweep
    that ends well reports exactly the slots that it removed (`sweepAllAt_reclaimed`). One
    that fails midway has removed slots too, but its report goes with the failure: the
    metrics count what was removed by the sweeps that succeeded and nothing else
    (`reclaimed_of_sweeps`).
-/

namespace ExecutionControl

namespace Admission

variable {a : Admission} {now : Timestamp} {F : Faults} {p p' : Point} {n : Nat}
  {O : Overflow → Point × Nat → Prop}

/-! ### One sweep -/

section

variable {E : CoordError → Point × Nat → Prop}

theorem losing_purge {key : String} {Q : Nat → Point × Nat → Prop} {k : Nat}
    (hQ : ∀ n p', Q n (p', k + n)) (hE : ∀ e p', E e (p', k)) :
    Coord.ensures (losing F O) Q E (a.purge key now) (p, k) := by
  unfold purge
  exact losing_removeScores (fun n _ => hQ n _) fun e _ => hE e _

theorem losing_sweepSets {Q : SweepReport → Point × Nat → Prop} (hE : ∀ e q, E e q)
    (hQ : ∀ report p', Q report (p', report.reclaimed)) (keys : List String)
    (report : SweepReport) :
    Coord.ensures (losing F O) Q E (a.sweepSets now keys report) (p, report.reclaimed) := by
  induction keys generalizing report p with
  | nil => exact hQ report p
  | cons key rest ih =>
    unfold sweepSets
    split
    · exact ih report
    · simp only [Coord.ensures_bind, Coord.ensures_attempt]
      refine losing_purge (fun n p' => ih _) fun e p' => ?_
      show Coord.ensures _ _ _ (if e.isUnavailable then _ else _) _
      split
      · exact hE e _
      · simp only [Coord.ensures_bind, Coord.ensures_lift, Program.ensures_report]
        exact losing_other (by simp) fun _ _ => ih _

theorem losing_sweepAllAt {Q : SweepReport → Point × Nat → Prop} (hE : ∀ e q, E e q)
    (hQ : ∀ report p', Q report (p', report.reclaimed)) :
    Coord.ensures (losing F O) Q E (a.sweepAllAt now) (p, 0) := by
  simp only [sweepAllAt, Coord.ensures_bind]
  refine losing_scan fun reply s' => ?_
  cases reply with
  | error e => exact hE e _
  | ok keys =>
    exact losing_sweepSets hE
      (fun report p' => losing_purge (fun n p'' => hQ _ p'') fun e _ => hE e _) keys {}

end

/-- A sweep of all sets reports exactly as many slots as it removed. -/
theorem sweepAllAt_reclaimed {out : Checked (Except CoordError SweepReport)}
    (h : (a.sweepAllAt now).run.EndsLosing F p n out p') :
    ∃ outcome, out = .ok outcome ∧ ∀ report, outcome = .ok report → report.reclaimed = n := by
  have hensures : (a.sweepAllAt now).run.ensures (losing F fun _ _ => False)
      (fun outcome q => ∀ report, outcome = .ok report → report.reclaimed = q.2) (p, 0) := by
    rw [Program.ensures_run]
    refine losing_sweepAllAt (fun e q report h => by cases h) fun report p' _ h => ?_
    cases h
    rfl
  obtain ⟨hok, herror⟩ := h.of_ensures hensures
  cases out with
  | error o => exact (herror o rfl).elim
  | ok outcome =>
    have hcount := hok outcome rfl
    rw [Nat.zero_add] at hcount
    exact ⟨outcome, rfl, hcount⟩

/-- What becomes of a sweep that is counted: it ends in any case, and the metrics learn how
    many slots it removed only if it succeeds. -/
theorem sweepOnce_cases {m : Metrics} {out : Checked (Except CoordError SweepReport × Metrics)}
    (h : (a.sweepOnce m now).EndsLosing F p n out p') :
    (∃ report, out = .ok (.ok report, m.started.succeeded report now) ∧ report.reclaimed = n) ∨
      ∃ e, out = .ok (.error e, m.started.failed) := by
  have hensures : (a.sweepOnce m now).ensures (losing F fun _ _ => False)
      (fun outcome q =>
        (∃ report, outcome = (.ok report, m.started.succeeded report now) ∧
          report.reclaimed = q.2) ∨
        ∃ e, outcome = (.error e, m.started.failed)) (p, 0) := by
    simp only [sweepOnce, Program.ensures_bind, Program.ensures_run]
    exact losing_sweepAllAt (fun e _ => .inr ⟨e, rfl⟩) fun report _ => .inl ⟨report, rfl, rfl⟩
  obtain ⟨hok, herror⟩ := h.of_ensures hensures
  cases out with
  | error o => exact (herror o rfl).elim
  | ok outcome =>
    rcases hok outcome rfl with ⟨report, rfl, hcount⟩ | ⟨e, rfl⟩
    · rw [Nat.zero_add] at hcount
      exact .inl ⟨report, rfl, hcount⟩
    · exact .inr ⟨e, rfl⟩

end Admission

/-! ### Sweeps one after another -/

/-- A sweep that has ended: what it answered, and how many slots it removed. -/
structure Sweep where
  outcome : Except CoordError SweepReport
  removed : Nat

namespace Admission

/-- How many slots some sweeps removed together. -/
def removedBy (past : List Sweep) : Nat := (past.map (·.removed)).sum

/-- Sweeps one after another, the latest first, and the metrics in which they are counted.
    What happens to the store between two of them is left open. -/
inductive Sweeps (a : Admission) (F : Faults) : List Sweep → Metrics → Prop
  | start : Sweeps a F [] {}
  | next {past : List Sweep} {m m' : Metrics} {now : Timestamp} {p p' : Point} {n : Nat}
      {outcome : Except CoordError SweepReport} :
      Sweeps a F past m →
      (a.sweepOnce m now).EndsLosing F p n (.ok (outcome, m')) p' →
      Sweeps a F (⟨outcome, n⟩ :: past) m'

/-- The metrics count the slots that sweeps removed which succeeded. Whatever fails, a sweep
    ends with an answer. -/
theorem reclaimed_of_sweeps (a : Admission) (F : Faults) (past : List Sweep) (m : Metrics)
    (h : a.Sweeps F past m) :
    m.reclaimed = UInt64.ofNat (removedBy (past.filter fun x => x.outcome.isOk)) ∧
      ∀ now p n out p', (a.sweepOnce m now).EndsLosing F p n out p' →
        ∃ outcome m', out = .ok (outcome, m') := by
  constructor
  · induction h with
    | start => rfl
    | next _ hends ih =>
      rcases sweepOnce_cases hends with ⟨report, hout, hcount⟩ | ⟨e, hout⟩
      · cases hout
        simp only [Metrics.succeeded, Metrics.started, ih, hcount, List.filter_cons, Except.isOk,
          Except.toBool, if_true, removedBy, List.map_cons, List.sum_cons]
        rw [← UInt64.ofNat_add, Nat.add_comm]
      · cases hout
        simpa [Metrics.failed, Metrics.started, Except.isOk, Except.toBool] using ih
  · intro now p n out p' hends
    rcases sweepOnce_cases hends with ⟨report, rfl, -⟩ | ⟨e, rfl⟩
    · exact ⟨_, _, rfl⟩
    · exact ⟨_, _, rfl⟩

/-- Two organisations that have a slot each since the epoch. -/
def twoSlots : Shared where
  coord := (({} : CoordStore).put (Key.orgSlots "a")
    ⟨.sortedSet ((∅ : Members).insert "e" 0.0), none⟩).put (Key.orgSlots "b")
    ⟨.sortedSet ((∅ : Members).insert "f" 0.0), none⟩

/-- The store fails when the second set is purged. -/
def failsAtSecond : CoordCall → Option CoordError
  | .removeScores key _ _ => if key = Key.orgSlots "b" then some (.unavailable "gone") else none
  | _ => none

/-- The metrics after one sweep, which failed. -/
def onceFailed : Metrics := { sweeps := 1, errors := 1 }

/-- A sweep that fails when it has purged the first set. -/
def failedSweep : Checked (Except CoordError SweepReport × Metrics) × Point :=
  ((withCeilings 1 1).sweepOnce {} (.ofMillis 21600000)).run (Point.answer failsAtSecond)
    ⟨twoSlots, []⟩

/-- The next sweep, which does not fail. -/
def nextSweep : Checked (Except CoordError SweepReport × Metrics) × Point :=
  ((withCeilings 1 1).sweepOnce onceFailed (.ofMillis 21660000)).run (Point.answer fun _ => none)
    ⟨failedSweep.2.shared, []⟩

/-- Each of the two sweeps removes one slot, and the metrics count one. -/
theorem sweeps_nextSweep : ∃ e report m, (withCeilings 1 1).Sweeps .any
    [⟨.ok report, 1⟩, ⟨.error e, 1⟩] m ∧ m.reclaimed = 1 := by
  have hfailed : failedSweep.1.toOption.map (fun x => (x.1.isOk, x.2)) =
      some (false, onceFailed) := by decide +kernel
  have hnext : nextSweep.1.toOption.map (fun x => (x.1.isOk, x.2.reclaimed)) = some (true, 1) := by
    decide +kernel
  have hlost : Program.losses failsAtSecond
      ((withCeilings 1 1).sweepOnce {} (.ofMillis 21600000)) ⟨twoSlots, []⟩ = 1 := by
    decide +kernel
  have hlost' : Program.losses (fun _ => none)
      ((withCeilings 1 1).sweepOnce onceFailed (.ofMillis 21660000))
      ⟨failedSweep.2.shared, []⟩ = 1 := by decide +kernel
  have hends₁ : ((withCeilings 1 1).sweepOnce {} (.ofMillis 21600000)).EndsLosing .any
      ⟨twoSlots, []⟩ 1 failedSweep.1 failedSweep.2 :=
    Program.endsLosing_run (fun _ _ _ => trivial) hlost
  have hends₂ : ((withCeilings 1 1).sweepOnce onceFailed (.ofMillis 21660000)).EndsLosing .any
      ⟨failedSweep.2.shared, []⟩ 1 nextSweep.1 nextSweep.2 :=
    Program.endsLosing_run (fun _ _ _ => trivial) hlost'
  generalize nextSweep = r₂ at hends₂ hnext
  generalize failedSweep = r₁ at hends₁ hends₂ hfailed
  rcases r₁ with ⟨o₁ | ⟨e | report, m₁⟩, p₁⟩
  · cases hfailed
  · rcases r₂ with ⟨o₂ | ⟨e₂ | report, m₂⟩, p₂⟩
    · cases hnext
    · cases hnext
    · cases hfailed
      exact ⟨e, report, m₂, .next (.next .start hends₁) hends₂,
        (Prod.mk.inj (Option.some.inj hnext)).2⟩
  · cases hfailed

/-- The slots of the sweep that did not fail. -/
theorem reclaimed_of_sweeps_nextSweep : ∃ e report m, (withCeilings 1 1).Sweeps .any
    [⟨.ok report, 1⟩, ⟨.error e, 1⟩] m ∧
      m.reclaimed = UInt64.ofNat (removedBy [⟨.ok report, 1⟩]) := by
  obtain ⟨e, report, m, hsweeps, -⟩ := sweeps_nextSweep
  exact ⟨e, report, m, hsweeps, (reclaimed_of_sweeps _ _ _ _ hsweeps).1⟩

/-- The slots that a sweep removed before it failed are never counted. -/
theorem reclaimed_of_sweeps_misses_failed : ∃ past m, (withCeilings 1 1).Sweeps .any past m ∧
    m.reclaimed ≠ UInt64.ofNat (removedBy past) := by
  obtain ⟨e, report, m, hsweeps, hreclaimed⟩ := sweeps_nextSweep
  refine ⟨_, m, hsweeps, ?_⟩
  rw [hreclaimed]
  exact (by decide : (1 : UInt64) ≠ UInt64.ofNat (1 + (1 + 0)))

end Admission

end ExecutionControl
