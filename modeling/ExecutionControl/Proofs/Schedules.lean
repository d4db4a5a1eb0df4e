import ExecutionControl.Proofs.Interleaving

/-! # Schedules

    A schedule says which worker goes next. Playing it answers every request without a
    fault, so that the scenes it goes through can be computed; all of them are reachable
    as far as each meets the condition (`reachable_play`).
-/

namespace ExecutionControl

/-- Who goes next. -/
inductive Repertoire.Turn (R : Repertoire) where
  /-- An operation starts. -/
  | start (op : R.Op)
  /-- A worker makes its next request. -/
  | next (i : Nat)

variable {R : Repertoire}

/-- A worker makes its next request, if it has one. -/
def Worker.turn (w : Worker R) (s : Shared) : Worker R × Shared :=
  match w.left with
  | .ok (.ask r next) =>
    match s.answer r with
    | (.ok reply, s') => (w.asked s' r reply (next reply), s')
    | (.error o, s') => (w.stopped o, s')
  | _ => (w, s)

/-- The scene after a turn. -/
def Scene.turn (σ : Scene R) : R.Turn → Scene R
  | .start op => ⟨σ.shared, σ.workers ++ [R.worker op]⟩
  | .next i =>
    match σ.workers[i]? with
    | some w => ⟨(w.turn σ.shared).2, σ.workers.set i (w.turn σ.shared).1⟩
    | none => σ

/-- What a turn adds to the chronicle. -/
def Scene.turnAdds (σ : Scene R) : R.Turn → Chronicle R
  | .start _ => []
  | .next i =>
    match σ.workers[i]? with
    | some ⟨op, .ok (.ask r _), _⟩ =>
      match σ.shared.answer r with
      | (.ok reply, s') => [(op, ⟨s'.now, r, reply⟩)]
      | (.error _, _) => []
    | _ => []

/-- The scenes of a schedule, the first one included. -/
def Scene.play (σ : Scene R) : List R.Turn → List (Scene R)
  | [] => [σ]
  | turn :: turns => σ :: (σ.turn turn).play turns

/-- The last scene of a schedule. -/
def Scene.after (σ : Scene R) (turns : List R.Turn) : Scene R := turns.foldl Scene.turn σ

/-- The chronicle of a schedule. -/
def Scene.chronicle (σ : Scene R) : List R.Turn → Chronicle R
  | [] => []
  | turn :: turns => (σ.turn turn).chronicle turns ++ σ.turnAdds turn

/-- Whether an operation is over. -/
def Worker.isDone (w : Worker R) : Bool :=
  match w.left with
  | .ok (.done _) => true
  | _ => false

theorem Worker.exists_of_isDone {w : Worker R} (h : w.isDone) :
    ∃ result, w.left = .ok (.done result) := by
  unfold isDone at h
  split at h
  · rename_i result hleft
    exact ⟨result, hleft⟩
  · cases h

theorem Worker.isRunning_of_isDone {w : Worker R} (h : w.isDone) : w.isRunning = false := by
  obtain ⟨result, hleft⟩ := exists_of_isDone h
  simp [isRunning, hleft]

/-- Whether the next request of a worker is one for a slot in the set under a key. -/
def Scene.asksForSlot (σ : Scene R) (i : Nat) (key : String) : Bool :=
  match σ.workers[i]? with
  | some w =>
    match w.left with
    | .ok (.ask (.coord (.addMember k _ _)) _) => k == key
    | _ => false
  | none => false

variable {F : Faults} {C : Scene R → Prop} {σ : Scene R}

/-- The turn of a worker whose request is answered. -/
theorem Worker.turn_of_ask {w : Worker R} {s : Shared} {r : Request}
    {next : r.Reply → Program (R.Result w.op)} {reply : r.Reply}
    (hleft : w.left = .ok (.ask r next)) (hreply : (s.answer r).1 = .ok reply) :
    w.turn s = (w.asked (s.answer r).2 r reply (next reply), (s.answer r).2) := by
  simp only [Worker.turn, hleft]
  cases hanswer : s.answer r with
  | mk out s' =>
    rw [hanswer] at hreply
    change out = .ok reply at hreply
    subst hreply
    rfl

/-- A turn is a step that adds its exchange to the chronicle, or it changes nothing. -/
theorem Scene.turn_adds (F : Faults) (σ : Scene R) (turn : R.Turn) :
    σ.Adds F (σ.turnAdds turn) (σ.turn turn) ∨ σ.turnAdds turn = [] ∧ σ.turn turn = σ := by
  obtain ⟨s, ws⟩ := σ
  cases turn with
  | start op => exact .inl (.start op)
  | next i =>
    simp only [Scene.turn, Scene.turnAdds]
    cases hw : ws[i]? with
    | none => exact .inr ⟨rfl, rfl⟩
    | some w =>
      obtain ⟨op, left, log⟩ := w
      match left with
      | .ok (.ask r next) =>
        left
        have hs := Shared.serves_answer F s r
        simp only [Worker.turn]
        match hreply : s.answer r with
        | (.ok reply, s') =>
          rw [hreply] at hs
          exact .asked hw rfl hs
        | (.error o, s') =>
          rw [hreply] at hs
          exact .stopped hw rfl hs
      -- Without a request to make the worker is put back as it was.
      | .ok (.done v) =>
        obtain ⟨hi, heq⟩ := List.getElem?_eq_some_iff.mp hw
        refine .inr ⟨rfl, ?_⟩
        simp only [Worker.turn]
        rw [← heq, List.set_getElem_self]
      | .error o =>
        obtain ⟨hi, heq⟩ := List.getElem?_eq_some_iff.mp hw
        refine .inr ⟨rfl, ?_⟩
        simp only [Worker.turn]
        rw [← heq, List.set_getElem_self]

/-- A turn is a step, or it changes nothing. -/
theorem Scene.turn_step (F : Faults) (σ : Scene R) (turn : R.Turn) :
    σ.Step F (σ.turn turn) ∨ σ.turn turn = σ :=
  (σ.turn_adds F turn).imp Scene.Adds.step And.right

/-- A schedule is a number of steps. -/
theorem Scene.steps_after (F : Faults) (σ : Scene R) (turns : List R.Turn) :
    σ.Steps F (σ.after turns) := by
  induction turns generalizing σ with
  | nil => exact .refl
  | cons turn turns ih =>
    rcases σ.turn_step F turn with hstep | hsame
    · exact .head hstep (ih _)
    · have hrest := ih (σ.turn turn)
      rw [hsame] at hrest
      show σ.Steps F ((σ.turn turn).after turns)
      rw [hsame]
      exact hrest

theorem Scene.exists_of_asksForSlot {i : Nat} {key : String} (h : σ.asksForSlot i key) :
    ∃ w member score next, σ.workers[i]? = some w ∧
      w.left = .ok (.ask (.coord (.addMember key member score)) next) := by
  unfold asksForSlot at h
  split at h
  · rename_i w hw
    split at h
    · rename_i k member score next hleft
      obtain rfl : k = key := by simpa using h
      exact ⟨w, member, score, next, hw, hleft⟩
    · cases h
  · cases h

/-- The turn of a worker that asks for a slot. -/
theorem Scene.turn_of_asksForSlot {i : Nat} {key : String} (F : Faults)
    (h : σ.asksForSlot i key) :
    ∃ w w' x, σ.workers[i]? = some w ∧ (σ.turn (.next i)).workers[i]? = some w' ∧
      w'.log = x :: w.log ∧ x.AddsTo key ∧ σ.Step F (σ.turn (.next i)) := by
  obtain ⟨w, member, score, next, hw, hleft⟩ := Scene.exists_of_asksForSlot h
  obtain ⟨hi, _⟩ := List.getElem?_eq_some_iff.mp hw
  obtain ⟨reply, s', hreply, hs', hs⟩ : ∃ reply s',
      (σ.shared.answer (.coord (.addMember key member score))).1 = .ok reply ∧
      (σ.shared.answer (.coord (.addMember key member score))).2 = s' ∧
      σ.shared.Serves F (.coord (.addMember key member score)) (.ok reply) s' :=
    ⟨_, _, rfl, rfl, Shared.serves_answer F σ.shared _⟩
  -- What the store answers is left open, so that nothing is computed here.
  have hscene : σ.turn (.next i) =
      ⟨s', σ.workers.set i (w.asked s' _ reply (next reply))⟩ := by
    simp only [Scene.turn, hw, Worker.turn_of_ask hleft hreply, hs']
  rw [hscene]
  exact ⟨w, _, _, hw, List.getElem?_set_self hi, rfl, ⟨_, _, _, _, rfl⟩, .asked hw hleft hs⟩

theorem Scene.after_mem_play (σ : Scene R) (turns more : List R.Turn) :
    σ.after turns ∈ σ.play (turns ++ more) := by
  induction turns generalizing σ with
  | nil => cases more <;> exact List.mem_cons_self
  | cons turn turns ih => exact List.mem_cons_of_mem _ (ih (σ.turn turn))

/-- Every scene of a schedule is reachable if all of them meet the condition. -/
theorem reachable_play {turns : List R.Turn} (h : Reachable F C σ)
    (hC : ∀ σ' ∈ σ.play turns, C σ') : ∀ σ' ∈ σ.play turns, Reachable F C σ' := by
  induction turns generalizing σ with
  | nil =>
    intro σ' hσ'
    rw [List.mem_singleton.mp hσ']
    exact h
  | cons turn turns ih =>
    have hnext : Reachable F C (σ.turn turn) := by
      rcases σ.turn_step F turn with hstep | hsame
      · have hmem := (σ.turn turn).after_mem_play [] turns
        exact .step h hstep (hC _ (List.mem_cons_of_mem _ hmem))
      · rw [hsame]
        exact h
    intro σ' hσ'
    rcases List.mem_cons.mp hσ' with rfl | hσ'
    · exact h
    · exact ih hnext (fun τ hτ => hC τ (List.mem_cons_of_mem _ hτ)) σ' hσ'

end ExecutionControl
