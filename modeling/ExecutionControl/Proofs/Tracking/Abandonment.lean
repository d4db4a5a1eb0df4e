import ExecutionControl.Proofs.Tracking.Deadlines

/-! # Records that nobody settles

    An operation writes first and sets the deadline last. A record that was there keeps the
    deadline that it had until then, so that it goes away even if the operation fails in
    between (`Kept`). A record that is not there is made by the first write, without a
    deadline; if a later call fails, then it stays until another operation on it succeeds.

    So a record without a deadline leads back to the operation that stranded it
    (`records_expire_unless_stranded`).
-/

namespace ExecutionControl

namespace CoordStore

variable {s₀ s s' : CoordStore} {now later : Moment} {key : String} {f : Fields}

/-- Something lies under a key that has no deadline. -/
def Lingers (s : CoordStore) (key : String) : Prop := ∃ d, s.entries[key]? = some ⟨d, none⟩

theorem lingers_congr (h : s'.entries[key]? = s.entries[key]?) :
    s'.Lingers key ↔ s.Lingers key := by
  rw [Lingers, Lingers, h]

/-- What is there at some time and has no deadline lingers. -/
theorem lingers_of_live (hlive : (s.live? now key).isSome)
    (hdeadline : ¬ (s.deadline? now key).isSome) : s.Lingers key := by
  obtain ⟨e, he⟩ := Option.isSome_iff_exists.mp hlive
  obtain ⟨hentry, -⟩ := live?_eq_some.mp he
  refine ⟨e.datum, ?_⟩
  have hnone : e.deadline = none := by simpa [deadline?, he] using hdeadline
  rw [hentry, ← hnone]

/-- A hash that is written has no deadline if there was none, or if nothing was there. -/
theorem lingers_putHash (h : (s.putHash now key f).Lingers key) :
    s.Lingers key ∨ s.live? now key = none := by
  obtain ⟨d, hd⟩ := h
  rw [putHash, entries_put_self] at hd
  have hnone : s.deadline? now key = none := (Entry.mk.inj (Option.some.inj hd)).2
  cases hlive : s.live? now key with
  | none => exact .inr rfl
  | some e =>
    have hsome : (s.live? now key).isSome := by simp [hlive]
    exact .inl (lingers_of_live hsome (by simp [hnone]))

/-- A hash that is written is over when what was there before would have been. -/
theorem live?_eq_none_of_putHash (h : (s.putHash now key f).live? later key = none) :
    s.live? later key = none := by
  have hover : ¬ Entry.isLive ⟨.hash f, s.deadline? now key⟩ later :=
    live?_eq_none.mp h _ entries_put_self
  cases hdeadline : s.deadline? now key with
  | none =>
    rw [hdeadline] at hover
    exact absurd rfl hover
  | some t =>
    rw [hdeadline] at hover
    exact live?_of_deadline hdeadline (by simpa [Entry.isLive] using hover)

theorem not_lingers_put {d : Datum} {t : Moment} : ¬ (s.put key ⟨d, some t⟩).Lingers key := by
  rintro ⟨d', hd'⟩
  rw [entries_put_self] at hd'
  cases hd'

theorem not_lingers_drop : ¬ (s.drop key).Lingers key := by
  rintro ⟨d, hd⟩
  rw [entries_drop_self] at hd
  cases hd

/-- What was under a key is still there as long as it was to be; and what lingers there
    lingered before, unless it was made anew. -/
structure Kept (s₀ s : CoordStore) (now : Moment) (key : String) : Prop where
  stays : ∀ later, now ≤ later → s.live? later key = none → s₀.live? later key = none
  lingers : s.Lingers key → s₀.Lingers key ∨ s₀.live? now key = none

namespace Kept

theorem refl (s : CoordStore) (now : Moment) (key : String) : Kept s s now key where
  stays _ _ h := h
  lingers := .inl

theorem at_later (h : Kept s₀ s now key) (hlater : now ≤ later) : Kept s₀ s later key where
  stays time htime := h.stays time (Nat.le_trans hlater htime)
  lingers hlingers := (h.lingers hlingers).imp_right (live?_eq_none_of_later hlater)

/-- A call that leaves the store as it is, or writes a hash with the deadline that was
    there. -/
theorem written (h : Kept s₀ s now key) (hs' : s' = s ∨ ∃ f, s' = s.putHash now key f) :
    Kept s₀ s' now key := by
  rcases hs' with rfl | ⟨f, rfl⟩
  · exact h
  · refine ⟨fun time htime hnone => ?_, fun hlingers => ?_⟩
    · exact h.stays time htime (live?_eq_none_of_putHash hnone)
    · rcases lingers_putHash hlingers with hbefore | hnone
      · exact h.lingers hbefore
      · exact .inr (h.stays now (Nat.le_refl _) hnone)

end Kept

end CoordStore

/-! ### What an operation leaves -/

/-- What an operation makes of its record: once it has settled it, the record does not linger,
    and until then it is kept. -/
def DateStage.Leaves (g : DateStage) (s₀ s : CoordStore) (now : Moment) (key : String) : Prop :=
  match g with
  | .settled => ¬ s.Lingers key
  | _ => s₀.Kept s now key

namespace DateStage

variable {s₀ s s' : CoordStore} {now : Moment} {key : String} {op : TrackerOperation}
  {stage : TrackStage} {g : DateStage} {read : Option Fields} {t : Tracker}

theorem leaves_of_kept (h : s₀.Kept s now key) (hg : g ≠ .settled) : g.Leaves s₀ s now key := by
  cases g with
  | settled => exact absurd rfl hg
  | _ => exact h

/-- A call that is carried out keeps the record or settles it. -/
theorem leaves_perform {call : CoordCall} {answer : Except CoordError call.Result}
    (h : s₀.Kept s now key) (hpermits : TrackStage.Permits key op stage (.coord call))
    (hp : s.perform now call = .ok (answer, s')) :
    ((unsettled read).after (.coord call) answer).Leaves s₀ s' now key := by
  have hnew : ∀ {field value : String} {answer : Except CoordError Bool},
      s.perform now (.setNewField key field value) = .ok (answer, s') →
      ((unsettled read).after (.coord (.setNewField key field value)) answer).Leaves s₀ s' now
        key := by
    intro field value answer hp
    refine leaves_of_kept (h.written ?_) (by cases answer <;> nofun)
    exact (CoordStore.perform_setNewField hp).imp_right fun ⟨_, _, _, heq⟩ => ⟨_, heq⟩
  have hset : ∀ {fields : List (String × String)} {answer : Except CoordError Unit},
      s.perform now (.setFields key fields) = .ok (answer, s') →
      ((unsettled read).after (.coord (.setFields key fields)) answer).Leaves s₀ s' now key := by
    intro fields answer hp
    refine leaves_of_kept (h.written ?_) (by cases answer <;> nofun)
    exact (CoordStore.perform_setFields hp).imp_right fun ⟨_, _, heq⟩ => ⟨_, heq⟩
  cases hpermits with
  | seed | startCounter _ | stamp _ => exact hnew hp
  | total _ | touch _ | mark _ _ => exact hset hp
  | count c =>
    refine leaves_of_kept (h.written ?_) (by cases answer <;> nofun)
    exact (CoordStore.perform_increment hp).imp And.right
      fun ⟨_, _, _, _, _, _, heq⟩ => ⟨_, heq⟩
  | look =>
    refine leaves_of_kept (h.written ?_) (by cases answer <;> nofun)
    exact .inl (CoordStore.perform_getFields hp)
  | expire ttl =>
    rcases CoordStore.perform_expire_cases hp with
      ⟨⟨e, rfl⟩, -, rfl⟩ | ⟨e, -, rfl, rfl⟩ | ⟨-, rfl, rfl⟩
    · exact h
    · exact CoordStore.not_lingers_put
    · exact CoordStore.not_lingers_drop
  | delete =>
    rcases CoordStore.perform_delete_cases hp with ⟨⟨e, rfl⟩, -, rfl⟩ | ⟨⟨v, rfl⟩, rfl⟩
    · exact h
    · exact CoordStore.not_lingers_drop

end DateStage

namespace Tracker

variable {t : Tracker} {F : Faults} {workflowId executionId key : String}
  {op : TrackerOperation} {s₀ s s' : Shared} {calls : List TrackerCall}

/-- A request of an operation keeps the record or settles it, and so does the time that passes
    until its answer. -/
theorem leaves_serves {stage : TrackStage} {g : DateStage} {r : Request} {reply : r.Reply}
    (h : g.Leaves s₀.coord s.coord s.now key) (hpermits : TrackStage.Permits key op stage r)
    (hdates : DateStage.Permits t op g r) (hs : s.Serves F r (.ok reply) s') :
    (g.after r reply).Leaves s₀.coord s'.coord s'.now key := by
  cases g with
  | settled | failed => exact hdates.elim
  | unsettled read =>
    have hkept : s₀.coord.Kept s.coord s'.now key := h.at_later hs.now_le
    cases r with
    | coord call =>
      rcases hs.answered with hp | ⟨⟨e, -, rfl⟩, hcoord⟩
      · exact DateStage.leaves_perform hkept hpermits hp
      · rw [hcoord]
        exact hkept
    | time =>
      rw [hs.coord_eq nofun]
      exact hkept
    | _ => cases hpermits

/-- A record that lingers after an operation lingered before, or the operation did not succeed
    and what it found is gone. -/
theorem lingers_cases {out : Checked op.Result} {p : Point}
    (hends : (t.program workflowId executionId op).Ends F ⟨s, []⟩ out p)
    (hlingers : p.shared.coord.Lingers (Key.execution workflowId executionId)) :
    (∀ result, out = .ok result → op.isOk result = false) ∧
      (s.coord.Lingers (Key.execution workflowId executionId) ∨
        s.coord.live? p.shared.now (Key.execution workflowId executionId) = none) := by
  obtain ⟨hok, herror⟩ := hends.follows (course_endsAs t workflowId executionId op)
    (I := fun (g : TrackStage × DateStage) s' =>
      g.2.Leaves s.coord s'.coord s'.now (Key.execution workflowId executionId))
    (fun _ _ _ _ _ h hpermits hs => leaves_serves h hpermits.1 hpermits.2 hs)
    (CoordStore.Kept.refl _ _ _)
  cases out with
  | ok result =>
    obtain ⟨⟨stage, g⟩, ⟨-, hended⟩, hleaves⟩ := hok result rfl
    cases g with
    | settled => exact absurd hlingers hleaves
    | failed =>
      refine ⟨fun _ heq => ?_, hleaves.lingers hlingers⟩
      cases heq
      exact hended
    | unsettled read =>
      refine ⟨fun _ heq => ?_, hleaves.lingers hlingers⟩
      cases heq
      exact hended.1
  | error o =>
    refine ⟨nofun, ?_⟩
    -- An operation that overflows has not settled its record, which it asks no more of.
    obtain ⟨⟨stage, g⟩, s', r, hleaves, hpermits, hs⟩ := herror o rfl
    cases g with
    | settled | failed => exact hpermits.2.elim
    | unsettled read =>
      rw [hs.stopped.1] at hlingers
      exact (hleaves.at_later hs.now_le).lingers hlingers

end Tracker

/-! ### Operations one after another -/

/-- Whether an operation left a record of its own making without a deadline: it did not
    succeed, and what it may have found was over when it ended. -/
def TrackerCall.Strands (c : TrackerCall) : Prop :=
  ¬ c.Succeeded ∧ c.before.coord.live? c.after.now c.key = none ∧ c.after.coord.Lingers c.key

namespace Tracker

variable {t : Tracker} {F : Faults} {key : String} {s₀ s : Shared} {calls : List TrackerCall}

/-- Who left a record without a deadline, if none of the operations that followed on it has
    succeeded. -/
def StrandedBy (calls : List TrackerCall) (key : String) : Prop :=
  ∃ later c earlier, calls = later ++ c :: earlier ∧ c.key = key ∧ c.Strands ∧
    ∀ c' ∈ later, c'.key = key → ¬ c'.Succeeded

/-- One more operation leaves a record stranded, unless it succeeds on it. -/
theorem StrandedBy.cons (h : StrandedBy calls key) {c : TrackerCall}
    (hc : c.key = key → ¬ c.Succeeded) : StrandedBy (c :: calls) key := by
  obtain ⟨later, c₀, earlier, rfl, hkey, hstrands, hlater⟩ := h
  exact ⟨c :: later, c₀, earlier, rfl, hkey, hstrands, List.forall_mem_cons.mpr ⟨hc, hlater⟩⟩

theorem Calls.strandedBy (h : t.Calls F s₀ calls s) (hs₀ : ¬ s₀.coord.Lingers key)
    (hlingers : s.coord.Lingers key) : StrandedBy calls key := by
  induction h with
  | start => exact absurd hlingers hs₀
  | wait _ _ ih => exact ih hlingers
  | @call calls c log _ hends ih =>
    by_cases hkey : key = c.key
    · subst hkey
      obtain ⟨hfailed, hbefore⟩ := lingers_cases hends hlingers
      have hc : ¬ c.Succeeded := by
        rintro ⟨result, heq, hok⟩
        rw [hfailed result heq] at hok
        cases hok
      rcases hbefore with hbefore | hnone
      · exact (ih hbefore).cons fun _ => hc
      · exact ⟨[], c, calls, rfl, rfl, ⟨hc, hnone, hlingers⟩, by simp⟩
    · have hsame := entries_of_ne hends hkey
      exact (ih ((CoordStore.lingers_congr hsame).mp hlingers)).cons
        fun heq => absurd heq.symm hkey

/-- Whatever calls fail: a record that is there has a deadline, or it was made by an operation
    that did not succeed, and no operation on it has succeeded since. -/
theorem records_expire_unless_stranded (t : Tracker) (F : Faults) (s₀ s : Shared)
    (calls : List TrackerCall) (h : t.Calls F s₀ calls s)
    (hs₀ : ∀ workflowId executionId, ¬ s₀.coord.Lingers (Key.execution workflowId executionId))
    (workflowId executionId : String)
    (hlive : (s.coord.live? s.now (Key.execution workflowId executionId)).isSome) :
    (s.coord.deadline? s.now (Key.execution workflowId executionId)).isSome ∨
      StrandedBy calls (Key.execution workflowId executionId) := by
  by_cases hdeadline : (s.coord.deadline? s.now (Key.execution workflowId executionId)).isSome
  · exact .inl hdeadline
  · exact .inr (h.strandedBy (hs₀ _ _) (CoordStore.lingers_of_live hlive hdeadline))

/-- No deadline can be set. -/
def failsAtExpire : CoordCall → Option CoordError
  | .expire .. => some (.unavailable "gone")
  | _ => none

/-- A record is started, and fails to get its deadline. -/
def failedStart : Checked (Except TrackerError Unit) × Point :=
  (withDefaultTtls.create "w" "e" 3).run (Point.answer failsAtExpire) ⟨{}, []⟩

theorem calls_failedStart :
    ∃ c : TrackerCall, withDefaultTtls.Calls .any {} [c] c.after ∧ c.op = .create 3 ∧
      c.key = Key.execution "w" "e" ∧ c.after.coord.Lingers (Key.execution "w" "e") := by
  have hfails : ∀ call e, failsAtExpire call = some e → Faults.any.coord call e :=
    fun _ _ _ => trivial
  have hends : (withDefaultTtls.create "w" "e" 3).Ends .any ⟨{}, []⟩ failedStart.1
      failedStart.2 := Program.ends_run hfails _ _
  have hnone : (failedStart.2.shared.coord.entries[Key.execution "w" "e"]?).map (·.deadline) =
      some none := by decide +kernel
  -- What was run is not computed any further.
  generalize failedStart = run at hends hnone
  obtain ⟨e, he, hdeadline⟩ := Option.map_eq_some_iff.mp hnone
  refine ⟨⟨"w", "e", .create 3, {}, run.1, run.2.shared⟩, .call _ .start hends, rfl, rfl,
    e.datum, ?_⟩
  rw [he, ← hdeadline]

theorem not_lingers_empty (key : String) : ¬ ({} : Shared).coord.Lingers key := by
  rintro ⟨d, hd⟩
  simp at hd

/-- The record was left without a deadline by the operation that started it. -/
theorem records_expire_unless_stranded_failed_start :
    ∃ c : TrackerCall, withDefaultTtls.Calls .any {} [c] c.after ∧
      c.key = Key.execution "w" "e" ∧ c.Strands := by
  obtain ⟨c, hcalls, -, hkey, hlingers⟩ := calls_failedStart
  obtain ⟨d, hd⟩ := hlingers
  have hlive : c.after.coord.live? c.after.now (Key.execution "w" "e") = some ⟨d, none⟩ :=
    CoordStore.live?_eq_some.mpr ⟨hd, rfl⟩
  refine ⟨c, hcalls, hkey, ?_⟩
  rcases records_expire_unless_stranded _ _ _ _ _ hcalls (fun _ _ => not_lingers_empty _) "w" "e"
    (by simp [hlive]) with hdeadline | ⟨later, c', earlier, heq, -, hstrands, -⟩
  · simp [CoordStore.deadline?, hlive] at hdeadline
  · cases later with
    | nil =>
      cases heq
      exact hstrands
    | cons _ _ => simp at heq

/-- It stays there for good. -/
theorem records_expire_unless_stranded_for_good :
    ∃ c : TrackerCall, withDefaultTtls.Calls .any {} [c] c.after ∧ c.op = .create 3 ∧ ∀ time,
      (c.after.coord.live? time (Key.execution "w" "e")).isSome ∧
      c.after.coord.deadline? time (Key.execution "w" "e") = none := by
  obtain ⟨c, hcalls, hop, -, d, hd⟩ := calls_failedStart
  refine ⟨c, hcalls, hop, fun time => ?_⟩
  have hlive : c.after.coord.live? time (Key.execution "w" "e") = some ⟨d, none⟩ :=
    CoordStore.live?_eq_some.mpr ⟨hd, rfl⟩
  exact ⟨by simp [hlive], by simp [CoordStore.deadline?, hlive]⟩

end Tracker

end ExecutionControl
