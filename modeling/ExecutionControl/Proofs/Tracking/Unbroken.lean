import ExecutionControl.Proofs.Tracking.Edits

/-! # Unbroken runs

    Operations on one execution one after another, on a store that never fails, with lookups
    in between; the record is not there at first, and once it is it does not go away
    (`Unbroken`). The fields of the record are then those that the edits of all operations
    have made one after another (`Unbroken.hash`), and every lookup reads what they had made
    by then (`Unbroken.reading`).

    Such runs can be computed, at chosen times of the wall clock (`Account.sound_play`).
-/

namespace ExecutionControl

open StatusRecord

namespace Tracker

variable {t : Tracker} {workflowId executionId : String} {finish : Moment} {f : Fields}

/-! ### Lookups -/

/-- What a lookup gives back that has read some fields. -/
def reading (workflowId executionId : String) (f : Fields) (now : Timestamp) : StatusLookup :=
  if f.isEmpty then .missing
  else match ofFields workflowId executionId f now with
    | .ok record => .found record
    | .error _ => .unknown

theorem get_ensures_reading {s : Shared} (h : Editing (Key.execution workflowId executionId)
    finish f [] ⟨s, []⟩) :
    (get workflowId executionId).ensures (servingUntil .never finish fun _ _ => False)
      (fun answer q => (∃ now, answer = reading workflowId executionId f now) ∧
        q.shared.coord = s.coord) ⟨s, []⟩ := by
  simp only [get, Program.ensures_bind, Program.ensures_coord]
  refine ⟨fun reply s' hs hfinish => ?_, fun o s' hs hfinish => ?_⟩
  · rcases hs.answered with hp | ⟨⟨e, hfault, -⟩, -⟩
    · rw [CoordStore.perform_getFields_of_hash h.available
        (h.hash_later hs.now_le hfinish)] at hp
      obtain ⟨rfl, hcoord⟩ := Prod.mk.inj (Except.ok.inj hp)
      cases hempty : Std.ExtTreeMap.isEmpty f with
      | true =>
        simp only [hempty, if_true]
        exact ⟨⟨default, by simp [reading, hempty]⟩, hcoord.symm⟩
      | false =>
        simp only [hempty, Bool.false_eq_true, if_false, Program.ensures_bind,
          Program.ensures_time]
        -- The time is asked for in case the record has none of its own.
        refine servingUntil_other (by simp) fun now s'' _ _ hsame => ?_
        cases hrecord : ofFields workflowId executionId f now with
        | ok record =>
          exact ⟨⟨now, by simp [reading, hempty, hrecord]⟩, hsame.trans hcoord.symm⟩
        | error e =>
          simp only [Program.ensures_bind, Program.ensures_report]
          refine servingUntil_other (by simp) fun _ s₃ _ _ hsame' => ?_
          exact ⟨⟨now, by simp [reading, hempty, hrecord]⟩,
            hsame'.trans (hsame.trans hcoord.symm)⟩
    · exact hfault.elim
  · have hp := hs.coord_error
    rw [CoordStore.perform_getFields_of_hash h.available (h.hash_later hs.now_le hfinish)] at hp
    cases hp

/-- A lookup that runs alone on a store that never fails reads the hash, if that has not gone
    away until it ends, and leaves the store as it is. -/
theorem get_reading {s : Shared} {out : Checked StatusLookup} {q : Point}
    (havailable : s.coord.available = true)
    (hhash : s.coord.hash s.now (Key.execution workflowId executionId) = .ok f)
    (hlasts : s.coord.Lasts s.now q.shared.now (Key.execution workflowId executionId))
    (hends : (get workflowId executionId).Ends .never ⟨s, []⟩ out q) :
    (∃ now, out = .ok (reading workflowId executionId f now)) ∧ q.shared.coord = s.coord := by
  obtain ⟨hok, herror⟩ := hends.of_ensures_until (Nat.le_refl _)
    (get_ensures_reading ⟨havailable, hhash, hlasts, rfl⟩)
  cases out with
  | ok answer =>
    obtain ⟨⟨now, rfl⟩, hcoord⟩ := hok answer rfl
    exact ⟨⟨now, rfl⟩, hcoord⟩
  | error o => exact (herror o rfl).elim

/-! ### Unbroken runs -/

/-- The operations on the record of an execution that have read the time, the latest first,
    each with the time that it has read. -/
abbrev History := List (TrackerOperation × Timestamp)

/-- The fields under a key after all operations of a history. -/
def History.fields (key : String) (history : History) : Fields :=
  history.foldr (fun x f => x.1.edit key x.2 f) ∅

theorem History.fields_map_append (key : String) (op : TrackerOperation) (times : List Timestamp)
    (history : History) : History.fields key (times.map (op, ·) ++ history) =
      times.foldr (op.edit key) (history.fields key) := by
  simp only [History.fields, List.foldr_append, List.foldr_map]

/-- Operations on one execution and lookups of it, one after another, on a store that never
    fails and holds nothing of it at first; its record is not deleted and does not go away.
    Whatever else happens in between leaves the record alone. Each lookup is kept with the
    history that it finds. -/
inductive Unbroken (t : Tracker) (workflowId executionId : String) :
    History → List (History × Checked StatusLookup) → Shared → Prop
  | start {s : Shared} (havailable : s.coord.available = true)
      (habsent : s.coord.live? s.now (Key.execution workflowId executionId) = none) :
      Unbroken t workflowId executionId [] [] s
  | elsewhere {history : History} {looks : List (History × Checked StatusLookup)} {s s' : Shared}
      (h : Unbroken t workflowId executionId history looks s) (hnow : s.now ≤ s'.now)
      (havailable : s'.coord.available = s.coord.available)
      (hentry : s'.coord.entries[Key.execution workflowId executionId]? =
        s.coord.entries[Key.execution workflowId executionId]?)
      (hlasts : s.coord.Lasts s.now s'.now (Key.execution workflowId executionId)) :
      Unbroken t workflowId executionId history looks s'
  | operate {history : History} {looks : List (History × Checked StatusLookup)} {s : Shared}
      (h : Unbroken t workflowId executionId history looks s) (op : TrackerOperation)
      (hop : op ≠ .delete) {out : Checked op.Result} {q : Point}
      (hends : (t.program workflowId executionId op).Ends .never ⟨s, []⟩ out q)
      (hlasts : s.coord.Lasts s.now q.shared.now (Key.execution workflowId executionId))
      (hlive : op.Writes →
        (q.shared.coord.live? q.shared.now (Key.execution workflowId executionId)).isSome) :
      Unbroken t workflowId executionId (q.log.told.map (op, ·) ++ history) looks q.shared
  | look {history : History} {looks : List (History × Checked StatusLookup)} {s : Shared}
      (h : Unbroken t workflowId executionId history looks s) {out : Checked StatusLookup}
      {q : Point} (hends : (get workflowId executionId).Ends .never ⟨s, []⟩ out q)
      (hlasts : s.coord.Lasts s.now q.shared.now (Key.execution workflowId executionId)) :
      Unbroken t workflowId executionId history ((history, out) :: looks) q.shared

variable {history : History} {looks : List (History × Checked StatusLookup)} {s : Shared}

/-- The record of an unbroken run holds what its history has made of it. -/
theorem Unbroken.hash (h : t.Unbroken workflowId executionId history looks s) :
    s.coord.available = true ∧ s.coord.hash s.now (Key.execution workflowId executionId) =
      .ok (history.fields (Key.execution workflowId executionId)) := by
  induction h with
  | start havailable habsent => exact ⟨havailable, CoordStore.hash_of_absent habsent⟩
  | elsewhere _ hnow havailable hentry hlasts ih =>
    refine ⟨havailable.trans ih.1, ?_⟩
    rw [CoordStore.hash_congr hentry, CoordStore.hash_of_lasts hnow hlasts]
    exact ih.2
  | operate h op hop hends hlasts hlive ih =>
    have hedited := ends_edited hop ih.1 ih.2 hlasts hends
    refine ⟨hedited.available, ?_⟩
    by_cases hwrites : op.Writes
    · rw [hedited.hash (hlive hwrites), History.fields_map_append]
    · obtain rfl := eq_of_not_writes hop hwrites hends
      exact ih.2
  | look h hends hlasts ih =>
    obtain ⟨-, hcoord⟩ := get_reading ih.1 ih.2 hlasts hends
    rw [hcoord, CoordStore.hash_of_lasts hends.now_le hlasts]
    exact ih

/-- Every operation of a history is one that writes. -/
theorem Unbroken.writes (h : t.Unbroken workflowId executionId history looks s) :
    ∀ x ∈ history, x.1.Writes := by
  induction h with
  | start => simp
  | elsewhere _ _ _ _ _ ih => exact ih
  | look _ _ _ ih => exact ih
  | @operate history looks s h op hop out q hends _ _ ih =>
    intro x hx
    rcases List.mem_append.mp hx with hx | hx
    · obtain ⟨time, htime, rfl⟩ := List.mem_map.mp hx
      by_contra hwrites
      obtain rfl := eq_of_not_writes hop hwrites hends
      cases htime
    · exact ih x hx

/-- Every lookup of an unbroken run reads what some part of the history had made of the record. -/
theorem Unbroken.reading (h : t.Unbroken workflowId executionId history looks s) :
    ∀ x ∈ looks, x.1 <:+ history ∧ ∃ now, x.2 = .ok (reading workflowId executionId
      (x.1.fields (Key.execution workflowId executionId)) now) := by
  induction h with
  | start => simp
  | elsewhere _ _ _ _ _ ih => exact ih
  | operate _ _ _ _ _ _ ih =>
    intro x hx
    obtain ⟨hsuffix, hreading⟩ := ih x hx
    exact ⟨hsuffix.trans (List.suffix_append _ _), hreading⟩
  | look h hends hlasts ih =>
    intro x hx
    rcases List.mem_cons.mp hx with rfl | hx
    · exact ⟨List.suffix_refl _, (get_reading h.hash.1 h.hash.2 hlasts hends).1⟩
    · exact ih x hx

end Tracker

/-! ### Runs that can be computed -/

/-- Answer a request without delay, when the wall clock shows a time. -/
def Shared.answerAt (time : Timestamp) (s : Shared) : (r : Request) → Checked r.Reply × Shared
  | .time => (.ok time, s)
  | r => s.answer r

theorem Shared.serves_answerAt (F : Faults) (time : Timestamp) (s : Shared) (r : Request) :
    s.Serves F r (s.answerAt time r).1 (s.answerAt time r).2 := by
  cases r with
  | time => exact ⟨s.now, Nat.le_refl _, .inl ⟨⟨time, rfl⟩, rfl⟩⟩
  | _ => exact serves_answer F s _

/-- The same, as a point of an execution. -/
def Point.answerAt (time : Timestamp) (r : Request) (p : Point) : Checked r.Reply × Point :=
  match p.shared.answerAt time r with
  | (.ok reply, s') => (.ok reply, p.asked s' r reply)
  | (.error o, s') => (.error o, p.stopped s')

theorem Program.ends_answerAt {α : Type} (F : Faults) (time : Timestamp) (prog : Program α)
    (p : Point) :
    prog.Ends F p (prog.run (Point.answerAt time) p).1 (prog.run (Point.answerAt time) p).2 := by
  induction prog generalizing p with
  | done a => exact .done a p
  | ask r next ih =>
    have hs := Shared.serves_answerAt F time p.shared r
    rw [run_ask]
    unfold Point.answerAt
    rcases hanswer : p.shared.answerAt time r with ⟨o | reply, s'⟩
    all_goals rw [hanswer] at hs
    · exact .stopped hs
    · exact .asked hs (ih reply _)

namespace Tracker

variable {workflowId executionId : String} {history : History}
  {looks : List (History × Checked StatusLookup)} {s : Shared}

/-- An operation of a tracker with the default times to live, when the wall clock shows a
    time. -/
def operateAt (workflowId executionId : String) (op : TrackerOperation) (time : Timestamp)
    (s : Shared) : Checked op.Result × Point :=
  (withDefaultTtls.program workflowId executionId op).run (Point.answerAt time) ⟨s, []⟩

/-- A lookup, when the wall clock shows a time. -/
def lookUpAt (workflowId executionId : String) (time : Timestamp) (s : Shared) :
    Checked StatusLookup × Point :=
  (get workflowId executionId).run (Point.answerAt time) ⟨s, []⟩

/-- A step of a run, at a time of the wall clock. -/
inductive Move where
  | operate (op : TrackerOperation) (time : Timestamp)
  | look (time : Timestamp)

/-- What is told of a run so far, and the state that it has come to. -/
structure Account where
  history : History := []
  looks : List (History × Checked StatusLookup) := []
  shared : Shared := {}

namespace Account

variable (workflowId executionId : String)

/-- The account after a step. -/
def move (x : Account) : Move → Account
  | .operate op time =>
    { x with
      history := (op, time) :: x.history
      shared := (operateAt workflowId executionId op time x.shared).2.shared }
  | .look time =>
    { x with
      looks := (x.history, (lookUpAt workflowId executionId time x.shared).1) :: x.looks
      shared := (lookUpAt workflowId executionId time x.shared).2.shared }

/-- Whether a step is one of an unbroken run, in which an operation has read the time once. -/
def Continues (x : Account) : Move → Prop
  | .operate op time =>
    op ≠ .delete ∧ (operateAt workflowId executionId op time x.shared).2.log.told = [time] ∧
      (operateAt workflowId executionId op time x.shared).2.shared.now = x.shared.now ∧
      ((operateAt workflowId executionId op time x.shared).2.shared.coord.live? x.shared.now
        (Key.execution workflowId executionId)).isSome
  | .look time => (lookUpAt workflowId executionId time x.shared).2.shared.now = x.shared.now

instance (x : Account) : DecidablePred (x.Continues workflowId executionId)
  | .operate .. => inferInstanceAs (Decidable (_ ∧ _))
  | .look _ => inferInstanceAs (Decidable (_ = _))

/-- The account after some steps. -/
def play (x : Account) (moves : List Move) : Account :=
  moves.foldl (fun x move => x.move workflowId executionId move) x

/-- Whether all steps are those of an unbroken run. -/
def Smooth (x : Account) : List Move → Prop
  | [] => True
  | move :: moves =>
    x.Continues workflowId executionId move ∧ Smooth (x.move workflowId executionId move) moves

instance decidableSmooth (x : Account) :
    (moves : List Move) → Decidable (x.Smooth workflowId executionId moves)
  | [] => isTrue trivial
  | move :: moves =>
    have := decidableSmooth (x.move workflowId executionId move) moves
    inferInstanceAs (Decidable (_ ∧ _))

end Account

/-- The account is that of an unbroken run. -/
abbrev Account.Sound (workflowId executionId : String) (x : Account) : Prop :=
  withDefaultTtls.Unbroken workflowId executionId x.history x.looks x.shared

variable {x : Account} {next : Move}

theorem Account.sound_empty (workflowId executionId : String) :
    Account.Sound workflowId executionId {} :=
  .start rfl (CoordStore.live?_of_absent (by simp))

theorem Account.sound_move (h : x.Sound workflowId executionId)
    (hcontinues : x.Continues workflowId executionId next) :
    (x.move workflowId executionId next).Sound workflowId executionId := by
  cases next with
  | operate op time =>
    obtain ⟨hop, htold, hnow, hlive⟩ := hcontinues
    have hlasts : x.shared.coord.Lasts x.shared.now
        (operateAt workflowId executionId op time x.shared).2.shared.now
        (Key.execution workflowId executionId) := by
      rw [hnow]
      exact CoordStore.lasts_self
    have hnext := h.operate op hop (Program.ends_answerAt .never time _ ⟨x.shared, []⟩) hlasts
      fun _ => by
        change ((operateAt workflowId executionId op time x.shared).2.shared.coord.live?
          (operateAt workflowId executionId op time x.shared).2.shared.now _).isSome
        rw [hnow]
        exact hlive
    change withDefaultTtls.Unbroken workflowId executionId (List.map (op, ·)
      (operateAt workflowId executionId op time x.shared).2.log.told ++ x.history) _ _ at hnext
    rwa [htold] at hnext
  | look time =>
    refine h.look (Program.ends_answerAt .never time _ ⟨x.shared, []⟩) ?_
    have hnow : (lookUpAt workflowId executionId time x.shared).2.shared.now = x.shared.now :=
      hcontinues
    change x.shared.coord.Lasts _ (lookUpAt workflowId executionId time x.shared).2.shared.now _
    rw [hnow]
    exact CoordStore.lasts_self

theorem Account.sound_play (moves : List Move) (h : x.Sound workflowId executionId)
    (hsmooth : x.Smooth workflowId executionId moves) :
    (x.play workflowId executionId moves).Sound workflowId executionId := by
  induction moves generalizing x with
  | nil => exact h
  | cons next moves ih => exact ih (sound_move h hsmooth.1) hsmooth.2

end Tracker

end ExecutionControl
