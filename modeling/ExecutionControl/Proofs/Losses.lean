import ExecutionControl.Proofs.Ensures
import Mathlib.Algebra.BigOperators.Group.List.Lemmas
import Mathlib.Algebra.GroupWithZero.Nat

/-! # Members that are lost

    What an execution takes out of the sorted sets, counted where it happens: between each
    request and its answer, under all keys at once. `EndsLosing` is the end of a program
    together with that count, and `losing` are the terms for it.

    A removal by score loses as many members as it answers (`lost_removeScores`).
-/

namespace ExecutionControl

/-! ### Two states of the store -/

namespace CoordStore

variable {s s' : CoordStore} {now : Moment} {key : String} {low high : Float}

/-- How many members of the set under a key are not in it in a later state. -/
def lostUnder (s s' : CoordStore) (now : Moment) (key : String) : Nat :=
  ((s.slots now key).filter fun member _ => !(s'.slots now key).contains member).size

/-- How many members are not in their sets in a later state. -/
def lost (s s' : CoordStore) (now : Moment) : Nat :=
  (s.entries.keys.map (s.lostUnder s' now)).sum

/-- What a filter does not keep, counted. -/
theorem size_filter_notMem (m : Members) (keeps : String → Float → Bool) :
    (m.filter fun member _ => !(m.filter keeps).contains member).size =
      m.size - (m.filter keeps).size := by
  have hrest : (m.filter fun member _ => !(m.filter keeps).contains member) =
      m.filter fun member score => !keeps member score := by
    ext1 member
    rw [Std.ExtTreeMap.getElem?_filter', Std.ExtTreeMap.getElem?_filter',
      Std.ExtTreeMap.contains_eq_isSome_getElem?, Std.ExtTreeMap.getElem?_filter']
    cases m[member]? with
    | none => rfl
    | some score => cases hkeeps : keeps member score <;> simp [Option.filter_some, hkeeps]
  have hsplit := m.toList.length_eq_length_filter_add fun p => keeps p.1 p.2
  rw [hrest]
  simp only [← Std.ExtTreeMap.length_toList, Std.ExtTreeMap.toList_filter]
  omega

theorem lostUnder_eq_zero (h : s'.slots now key = s.slots now key) :
    s.lostUnder s' now key = 0 := by
  have hnone : ((s.slots now key).filter fun member _ => !(s.slots now key).contains member) =
      ∅ := by
    rw [Std.ExtTreeMap.filter_eq_empty_iff]
    intro member hmem
    simpa using hmem
  rw [lostUnder, h, hnone]
  rfl

/-- Where nothing lies nothing is lost. -/
theorem lostUnder_of_notMem (h : key ∉ s.entries.keys) : s.lostUnder s' now key = 0 := by
  have hempty : s.slots now key = ∅ := by
    have habsent : s.entries[key]? = none := by
      rw [Std.ExtTreeMap.mem_keys] at h
      exact Std.ExtTreeMap.getElem?_eq_none h
    simp [slots, datum?, live?_of_absent habsent]
  rw [lostUnder, hempty]
  rfl

theorem lost_self : s.lost s now = 0 := by
  have hzero : ∀ n ∈ s.entries.keys.map (s.lostUnder s now), n = 0 := by
    intro n hn
    obtain ⟨key, -, rfl⟩ := List.mem_map.mp hn
    exact lostUnder_eq_zero rfl
  exact List.sum_eq_zero hzero

/-- What is lost by a change of one set. -/
theorem lost_of_frame (h : ∀ k, k ≠ key → s'.entries[k]? = s.entries[k]?) :
    s.lost s' now = s.lostUnder s' now key := by
  have hsum := List.sum_map_eq_nsmul_single (l := s.entries.keys) key (s.lostUnder s' now)
    fun k hk _ => lostUnder_eq_zero (slots_congr (h k hk))
  rw [lost, hsum]
  by_cases hkey : key ∈ s.entries.keys
  · rw [List.count_eq_one_of_mem Std.ExtTreeMap.nodup_keys hkey, one_nsmul]
  · rw [lostUnder_of_notMem hkey, nsmul_zero]

/-- A removal by score loses as many members as it answers. -/
theorem lost_removeScores {n : Nat}
    (h : s.perform now (.removeScores key low high) = .ok (.ok n, s')) : s.lost s' now = n := by
  have hframe : ∀ k, k ≠ key → s'.entries[k]? = s.entries[k]? := fun k hk =>
    perform_entries_of_ne h hk fun _ => by simp
  obtain ⟨m, hm, rfl, rfl⟩ := perform_removeScores_ok h
  rw [lost_of_frame hframe, lostUnder, slots_putMembers lasts_self, members_eq_ok hm]
  exact size_filter_notMem m _

end CoordStore

variable {α : Type} {F : Faults}

/-! ### Executions -/

/-- A program that runs alone ends, and `n` members are lost until then. -/
inductive Program.EndsLosing (F : Faults) : Program α → Point → Nat → Checked α → Point → Prop
  | done (a : α) (p : Point) : EndsLosing F (.done a) p 0 (.ok a) p
  | asked {r : Request} {next : r.Reply → Program α} {p p' : Point} {reply : r.Reply}
      {s' : Shared} {n : Nat} {out : Checked α} :
      p.shared.Serves F r (.ok reply) s' → EndsLosing F (next reply) (p.asked s' r reply) n out p' →
      EndsLosing F (.ask r next) p (p.shared.coord.lost s'.coord s'.now + n) out p'
  | stopped {r : Request} {next : r.Reply → Program α} {p : Point} {o : Overflow}
      {s' : Shared} :
      p.shared.Serves F r (.error o) s' → EndsLosing F (.ask r next) p 0 (.error o) (p.stopped s')

variable {prog : Program α} {p p' : Point} {n : Nat} {out : Checked α}

/-- Counting does not change an execution. -/
theorem Program.EndsLosing.ends (h : prog.EndsLosing F p n out p') : prog.Ends F p out p' := by
  induction h with
  | done a p => exact .done a p
  | asked hs _ ih => exact .asked hs ih
  | stopped hs => exact .stopped hs

/-- The terms of the shared services, together with a count of the members that are lost. -/
def losing (F : Faults) (O : Overflow → Point × Nat → Prop) : Terms (Point × Nat) := fun r Q q =>
  (∀ reply s', q.1.shared.Serves F r (.ok reply) s' →
    Q reply (q.1.asked s' r reply, q.2 + q.1.shared.coord.lost s'.coord s'.now)) ∧
  ∀ o s', q.1.shared.Serves F r (.error o) s' → O o (q.1.stopped s', q.2)

variable {O : Overflow → Point × Nat → Prop}

/-- What a program ensures holds wherever it ends, of all that was lost until then. -/
theorem Program.EndsLosing.of_ensures {Q : α → Point × Nat → Prop} {k : Nat}
    (h : prog.EndsLosing F p n out p') (hprog : prog.ensures (losing F O) Q (p, k)) :
    (∀ a, out = .ok a → Q a (p', k + n)) ∧ ∀ o, out = .error o → O o (p', k + n) := by
  induction h generalizing k with
  | done a p =>
    refine ⟨fun b hb => ?_, fun o ho => by cases ho⟩
    cases hb
    exact hprog
  | asked hs _ ih =>
    rw [← Nat.add_assoc]
    exact ih (hprog.1 _ _ hs)
  | stopped hs =>
    refine ⟨fun a ha => (by cases ha), fun o ho => ?_⟩
    cases ho
    exact hprog.2 _ _ hs

/-- A request that leaves the store as it is loses nothing. -/
theorem losing_of_kept {r : Request} {Q : r.Reply → Point × Nat → Prop} {k : Nat}
    (hkept : ∀ reply s', p.shared.Serves F r (.ok reply) s' → s'.coord = p.shared.coord)
    (hanswered : ∀ o s', ¬ p.shared.Serves F r (.error o) s')
    (hQ : ∀ reply s', Q reply (p.asked s' r reply, k)) : losing F O r Q (p, k) := by
  refine ⟨fun reply s' hs => ?_, fun o s' hs => absurd hs (hanswered o s')⟩
  show Q reply (_, k + p.shared.coord.lost s'.coord s'.now)
  rw [hkept reply s' hs, CoordStore.lost_self]
  exact hQ reply s'

theorem losing_other {r : Request} {Q : r.Reply → Point × Nat → Prop} {k : Nat}
    (hr : (∀ call, r ≠ .coord call) ∧ ∀ o, r ≠ .stop o)
    (hQ : ∀ reply s', Q reply (p.asked s' r reply, k)) : losing F O r Q (p, k) :=
  losing_of_kept (fun _ _ hs => hs.coord_eq hr.1) (fun _ _ => Shared.Serves.ne_overflow hr) hQ

theorem losing_scan {start : String} {Q : Except CoordError (List String) → Point × Nat → Prop}
    {k : Nat} (hQ : ∀ reply s', Q reply (p.asked s' (.coord (.scan start)) reply, k)) :
    losing F O (.coord (.scan start)) Q (p, k) := by
  refine losing_of_kept (fun reply s' hs => ?_) (fun o s' hs => ?_) hQ
  · rcases hs.answered with hp | ⟨_, hcoord⟩
    · exact CoordStore.perform_scan hp
    · exact hcoord
  · cases hs.coord_error

/-- A removal by score loses what it answers, and nothing if it fails. It never overflows. -/
theorem losing_removeScores {key : String} {low high : Float}
    {Q : Except CoordError Nat → Point × Nat → Prop} {k : Nat}
    (hremoved : ∀ n s', Q (.ok n) (p.asked s' (.coord (.removeScores key low high)) (.ok n), k + n))
    (hfailed : ∀ e s',
      Q (.error e) (p.asked s' (.coord (.removeScores key low high)) (.error e), k)) :
    losing F O (.coord (.removeScores key low high)) Q (p, k) := by
  have hkept : ∀ {s' : Shared}, s'.coord = p.shared.coord →
      k + p.shared.coord.lost s'.coord s'.now = k := by
    intro s' hcoord
    rw [hcoord, CoordStore.lost_self, Nat.add_zero]
  refine ⟨fun reply s' hs => ?_, fun o s' hs => ?_⟩
  · rcases hs.answered with hp | ⟨⟨e, -, rfl⟩, hcoord⟩
    · cases reply with
      | ok n =>
        rw [CoordStore.lost_removeScores hp]
        exact hremoved n s'
      | error e =>
        rcases CoordStore.perform_removeScores hp with ⟨-, hcoord⟩ | ⟨⟨n, hn⟩, -⟩
        · rw [hkept hcoord]
          exact hfailed e s'
        · cases hn
    · rw [hkept hcoord]
      exact hfailed e s'
  · cases hs.coord_error

/-! ### Running -/

/-- How many members are lost when a program is run, where the calls that `fails` picks out
    fail. -/
def Program.losses (fails : CoordCall → Option CoordError) : Program α → Point → Nat
  | .done _, _ => 0
  | .ask r next, p =>
    match p.shared.answerUnless fails r with
    | (.ok reply, s') =>
      p.shared.coord.lost s'.coord s'.now + (next reply).losses fails (p.asked s' r reply)
    | (.error _, _) => 0

/-- A program that is run ends, with what it loses. -/
theorem Program.endsLosing_run {fails : CoordCall → Option CoordError}
    (hfails : ∀ call e, fails call = some e → F.coord call e) {prog : Program α} {p : Point}
    (hn : prog.losses fails p = n) :
    prog.EndsLosing F p n (prog.run (Point.answer fails) p).1
      (prog.run (Point.answer fails) p).2 := by
  subst hn
  induction prog generalizing p with
  | done a => exact .done a p
  | ask r next ih =>
    have hs := Shared.serves_answerUnless hfails p.shared r
    rw [run_ask]
    unfold losses Point.answer
    rcases hanswer : p.shared.answerUnless fails r with ⟨o | reply, s'⟩
    all_goals rw [hanswer] at hs
    · exact .stopped hs
    · exact .asked hs (ih reply)

end ExecutionControl
