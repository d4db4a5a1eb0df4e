import ExecutionControl.Proofs.KeyFamilies
import ExecutionControl.Proofs.Requests
import ExecutionControl.Proofs.Tracking.Readability

/-! # Isolation of tracked executions

    An operation on the record of one execution names one key in every call
    (`program_spares`), and a lookup reads one key (`get_looks`). So an operation is not
    noticed by a lookup of another execution, in whatever state and whatever fails, as long as
    the two have different keys (`records_isolated`).

    Different executions do have one key if the names of one are those of the other, split at
    another colon. Then they share a record (`records_isolated_fails_with_one_text`).
-/

namespace ExecutionControl

namespace Tracker

variable {t : Tracker} {workflowId executionId key : String} {op : TrackerOperation}
  {F : Faults} {s s' q : Shared}

/-! ### What operations leave alone -/

/-- Every call of an operation is for the key of its execution. -/
theorem program_spares (t : Tracker) (op : TrackerOperation)
    (h : key ≠ Key.execution workflowId executionId) :
    (t.program workflowId executionId op).Asks (Request.Spares key) := by
  refine (Program.asks_of_ensures (endsAs t workflowId executionId op)).imp ?_
  rintro r ⟨g, hpermits⟩ call rfl
  cases hpermits <;> exact ⟨h, by simp⟩

/-! ### What lookups can notice -/

/-- The requests of a lookup of what is under a key. -/
def Looks (key : String) : Request → Prop
  | .coord call => call = .getFields key
  | .time => True
  | .report _ => True
  | _ => False

theorem get_looks (workflowId executionId : String) :
    (get workflowId executionId).Asks (Looks (Key.execution workflowId executionId)) := by
  unfold get
  refine (Program.asks_coord (by rfl)).bind fun reply => ?_
  match reply with
  | .error e => exact (Program.asks_request (by trivial)).bind fun _ => Program.asks_pure _
  | .ok fields =>
    show Program.Asks _ (if fields.isEmpty then _ else _)
    split
    · exact Program.asks_pure _
    · refine (Program.asks_request (by trivial)).bind fun now => ?_
      split
      · exact Program.asks_pure _
      · exact (Program.asks_request (by trivial)).bind fun _ => Program.asks_pure _

/-- Two states in which the same is found under a key. -/
structure Alike (key : String) (s q : Shared) : Prop where
  now : q.now = s.now
  available : q.coord.available = s.coord.available
  entry : q.coord.entries[key]? = s.coord.entries[key]?

theorem Alike.symm (h : Alike key s q) : Alike key q s :=
  ⟨h.now.symm, h.available.symm, h.entry.symm⟩

theorem Alike.refl (key : String) (s : Shared) : Alike key s s := ⟨rfl, rfl, rfl⟩

/-- A call for all fields gives the same fields, and changes nothing. -/
theorem Alike.getFields (h : Alike key s q) (time : Moment) :
    q.coord.getFields time key = ((s.coord.getFields time key).1, q.coord) := by
  have hhash : q.coord.hash time key = s.coord.hash time key := by
    simp [CoordStore.hash, CoordStore.datum?, CoordStore.live?, h.entry]
  simp only [CoordStore.getFields, CoordStore.whenAvailable, CoordStore.unreachable, h.available,
    hhash]
  split <;> rfl

/-- A request of a lookup that is carried out is carried out alike, and changes nothing. -/
theorem Alike.performs (h : Alike key s q) {r : Request} {reply : Checked r.Reply}
    (hr : Looks key r) (hs : s.Performs r reply s') : q.Performs r reply q ∧ s' = s := by
  cases r with
  | coord call =>
    obtain rfl : call = .getFields key := hr
    simp only [Shared.Performs, CoordStore.perform] at hs ⊢
    have hread : q.coord.getFields q.now key = ((s.coord.getFields s.now key).1, q.coord) := by
      rw [h.getFields, h.now]
    rw [(Alike.refl key s).getFields] at hs
    rw [hread]
    exact ⟨⟨hs.1, rfl⟩, hs.2⟩
  | time => exact ⟨⟨hs.1, rfl⟩, hs.2⟩
  | report event => exact ⟨⟨hs.1, rfl⟩, hs.2⟩
  | _ => exact hr.elim

theorem Alike.wait (h : Alike key s q) (time : Moment) : Alike key (s.wait time) (q.wait time) :=
  ⟨rfl, h.available, h.entry⟩

/-- What one state does for a lookup, the other can do. -/
theorem Alike.serves (h : Alike key s q) {r : Request} {reply : Checked r.Reply}
    (hr : Looks key r) (hs : s.Serves F r reply s') :
    ∃ q', q.Serves F r reply q' ∧ q'.now = s'.now ∧ Alike key s' q' := by
  obtain ⟨time, htime, hs⟩ := hs
  have hlater : q.now + r.span ≤ time := by
    rw [h.now]
    exact htime
  rcases hs with hperforms | ⟨hfails, rfl⟩
  · obtain ⟨halike, rfl⟩ := (h.wait time).performs hr hperforms
    exact ⟨q.wait time, ⟨time, hlater, .inl halike⟩, rfl, h.wait time⟩
  · exact ⟨q.wait time, ⟨time, hlater, .inr ⟨hfails, rfl⟩⟩, rfl, h.wait time⟩

/-- Two states in which the lookups of an execution end in the same ways, with the same
    requests and replies. -/
def SameLookups (workflowId executionId : String) (s q : Shared) : Prop :=
  ∀ (F : Faults) (out : Checked StatusLookup) (log : Log),
    (∃ s', (get workflowId executionId).Ends F ⟨s, []⟩ out ⟨s', log⟩) ↔
      ∃ q', (get workflowId executionId).Ends F ⟨q, []⟩ out ⟨q', log⟩

theorem Alike.sameLookups (h : Alike (Key.execution workflowId executionId) s q) :
    SameLookups workflowId executionId s q := by
  have hone : ∀ {s q : Shared}, Alike (Key.execution workflowId executionId) s q →
      ∀ {F out s' log}, (get workflowId executionId).Ends F ⟨s, []⟩ out ⟨s', log⟩ →
        ∃ q', (get workflowId executionId).Ends F ⟨q, []⟩ out ⟨q', log⟩ := by
    intro s q h F out s' log hends
    obtain ⟨q', hq, -⟩ := hends.simulate (get_looks workflowId executionId) h
      fun s q r reply s' h hr hs => h.serves hr hs
    exact ⟨q', hq⟩
  intro F out log
  constructor
  · rintro ⟨s', hends⟩
    exact hone h hends
  · rintro ⟨q', hends⟩
    exact hone h.symm hends

/-! ### Isolation -/

/-- Whatever the store holds and whichever calls fail, an operation on the record of one
    execution changes neither what a lookup of another finds nor until when that record is
    there, unless the names of the two are one text that is split at two of its colons. -/
theorem records_isolated {otherWorkflowId otherExecutionId : String} (t : Tracker)
    (op : TrackerOperation) {out : Checked op.Result} {p : Point}
    (hends : (t.program workflowId executionId op).Ends F ⟨s, []⟩ out p)
    (hother : (workflowId, executionId) ≠ (otherWorkflowId, otherExecutionId))
    (hearlier : ¬ Key.SplitEarlier workflowId executionId otherWorkflowId otherExecutionId)
    (hlater : ¬ Key.SplitEarlier otherWorkflowId otherExecutionId workflowId executionId) :
    SameLookups otherWorkflowId otherExecutionId (s.wait p.shared.now) p.shared ∧
      ∀ time, p.shared.coord.deadline? time (Key.execution otherWorkflowId otherExecutionId) =
        s.coord.deadline? time (Key.execution otherWorkflowId otherExecutionId) := by
  -- The two records lie under different keys.
  have hkey : Key.execution otherWorkflowId otherExecutionId ≠
      Key.execution workflowId executionId := by
    intro h
    rcases Key.execution_eq_iff.mp h with ⟨rfl, rfl⟩ | hsplit | hsplit
    · exact hother rfl
    · exact hlater hsplit
    · exact hearlier hsplit
  have hsame := hends.keeps (I := fun q => q.coord.available = s.coord.available ∧
      q.coord.entries[Key.execution otherWorkflowId otherExecutionId]? =
        s.coord.entries[Key.execution otherWorkflowId otherExecutionId]?)
    (program_spares t op hkey) (fun q r reply q' h hr hs =>
      ⟨hs.available.trans h.1, (hs.entries_of_spares hr).trans h.2⟩) ⟨rfl, rfl⟩
  constructor
  · exact Alike.sameLookups ⟨rfl, hsame.1, hsame.2⟩
  · intro time
    exact CoordStore.deadline?_congr hsame.2

/-- An operation of a tracker with the default times to live, on a store that never fails. -/
def operate (workflowId executionId : String) (op : TrackerOperation) (s : Shared) :
    Checked op.Result × Point :=
  (withDefaultTtls.program workflowId executionId op).run (Point.answer fun _ => none) ⟨s, []⟩

theorem operate_ends (workflowId executionId : String) (op : TrackerOperation) (s : Shared) :
    (withDefaultTtls.program workflowId executionId op).Ends .never ⟨s, []⟩
      (operate workflowId executionId op s).1 (operate workflowId executionId op s).2 := by
  have hnone : ∀ call e, (fun _ => none : CoordCall → Option CoordError) call = some e →
      Faults.never.coord call e := by simp
  exact Program.ends_run hnone _ _

/-- Once the record of an execution is started whose name contains a colon, another is deleted
    whose names are the start of the same text. -/
theorem records_isolated_with_colons :
    ∃ (s : Shared) (out : _) (p : Point),
      (withDefaultTtls.program "a" "b" .delete).Ends .never ⟨s, []⟩ out p ∧
      SameLookups "a:b" "c" (s.wait p.shared.now) p.shared ∧
      completed? (lookUp "a:b" "c" p.shared).1 = some 0 := by
  have hends := operate_ends "a" "b" .delete (operate "a:b" "c" (.create 3) {}).2.shared
  have hkeys : Key.execution "a" "b" ≠ Key.execution "a:b" "c" := by decide
  have hisolated := records_isolated withDefaultTtls .delete hends (by decide)
    (fun h => hkeys h.execution_eq) fun h => hkeys h.execution_eq.symm
  refine ⟨_, _, _, hends, hisolated.1, ?_⟩
  decide +kernel

/-- Two executions whose names are one text have one record: once that of the first is
    started, a lookup of the second finds it. -/
theorem records_isolated_fails_with_one_text :
    ("a:b", "c") ≠ ("a", "b:c") ∧ ∃ out p,
      (withDefaultTtls.program "a:b" "c" (.create 3)).Ends .never ⟨{}, []⟩ out p ∧
      (∃ r q, (get "a" "b:c").Ends .never ⟨p.shared, []⟩ (.ok (.found r)) q) ∧
      ¬ SameLookups "a" "b:c" (Shared.wait {} p.shared.now) p.shared := by
  have hends := operate_ends "a:b" "c" (.create 3) {}
  have hone : completed? (lookUp "a" "b:c" (operate "a:b" "c" (.create 3) {}).2.shared).1 =
      some 0 := by
    decide +kernel
  -- What was run is not computed any further.
  generalize operate "a:b" "c" (.create 3) {} = run at hends hone
  have hget := lookUp_ends "a" "b:c" run.2.shared
  generalize (lookUp "a" "b:c" run.2.shared).1 = out at hone hget
  match out with
  | .ok (.found r) =>
    refine ⟨by decide, _, _, hends, ⟨r, _, hget⟩, fun hsame => ?_⟩
    -- Before, the same lookup would have found nothing.
    obtain ⟨_, hbefore⟩ := (hsame .never _ _).mpr ⟨_, hget⟩
    have hnone : CoordStore.Carries {} run.2.shared.now (Key.execution "a" "b:c") ∅ none :=
      CoordStore.carries_none (CoordStore.live?_of_absent (by simp))
    obtain ⟨_, hfound, ⟨rfl, -⟩ | ⟨_, _, hrecord, -⟩⟩ := get_ends hnone rfl hbefore
    · cases hfound
    · cases hrecord

end Tracker

end ExecutionControl
