import ExecutionControl.Proofs.Ensures
import Mathlib.Logic.Relation

/-! # Workers that run side by side

    Any number of operations run at once against the same services. At every step one of
    them makes its next request, wherever the others stand; a scene is the services
    together with what is left of each operation.

    A discipline follows the requests of each operation on its own: it keeps a stage, which
    every answered request moves, and says which requests are permitted at a stage. If the
    programs keep to it when nobody else runs, then so does every worker in every scene,
    whatever the others do to the services between its requests (`Holds.permits`), and it
    ends as its program does alone (`EndsAs.keptTo`).
-/

namespace ExecutionControl

/-! ### Scenes -/

/-- Operations and their programs. -/
structure Repertoire where
  Op : Type
  /-- What an operation gives back. -/
  Result : Op → Type
  program : (op : Op) → Program (Result op)

/-- An operation that was started. -/
structure Worker (R : Repertoire) where
  op : R.Op
  /-- What is left to run, or the overflow that ended it. -/
  left : Checked (Program (R.Result op))
  log : Log := []

/-- The services and all operations that were ever started. -/
structure Scene (R : Repertoire) where
  shared : Shared
  workers : List (Worker R) := []

variable {R : Repertoire}

/-- Whether an operation has a request to make. -/
def Worker.isRunning (w : Worker R) : Bool :=
  match w.left with
  | .ok (.ask _ _) => true
  | _ => false

theorem Worker.isRunning_of_left {w : Worker R} {r : Request}
    {next : r.Reply → Program (R.Result w.op)} (h : w.left = .ok (.ask r next)) :
    w.isRunning := by
  simp [isRunning, h]

/-- An operation that was just started. -/
def Repertoire.worker (R : Repertoire) (op : R.Op) : Worker R := ⟨op, .ok (R.program op), []⟩

/-- A worker after its request is answered. -/
def Worker.asked (w : Worker R) (s' : Shared) (r : Request) (reply : r.Reply)
    (left : Program (R.Result w.op)) : Worker R :=
  ⟨w.op, .ok left, ⟨s'.now, r, reply⟩ :: w.log⟩

/-- A worker after its request overflows. -/
def Worker.stopped (w : Worker R) (o : Overflow) : Worker R := ⟨w.op, .error o, w.log⟩

/-! ### Steps -/

/-- One step of a scene: an operation starts, time passes, or one worker makes its next
    request. -/
inductive Scene.Step (F : Faults) : Scene R → Scene R → Prop
  | start {s : Shared} {ws : List (Worker R)} (op : R.Op) :
      Step F ⟨s, ws⟩ ⟨s, ws ++ [R.worker op]⟩
  | wait {s : Shared} {ws : List (Worker R)} {t : Moment} (h : s.now ≤ t) :
      Step F ⟨s, ws⟩ ⟨s.wait t, ws⟩
  | asked {s s' : Shared} {ws : List (Worker R)} {i : Nat} {w : Worker R} {r : Request}
      {next : r.Reply → Program (R.Result w.op)} {reply : r.Reply}
      (hw : ws[i]? = some w) (hleft : w.left = .ok (.ask r next))
      (hs : s.Serves F r (.ok reply) s') :
      Step F ⟨s, ws⟩ ⟨s', ws.set i (w.asked s' r reply (next reply))⟩
  | stopped {s s' : Shared} {ws : List (Worker R)} {i : Nat} {w : Worker R} {r : Request}
      {next : r.Reply → Program (R.Result w.op)} {o : Overflow}
      (hw : ws[i]? = some w) (hleft : w.left = .ok (.ask r next))
      (hs : s.Serves F r (.error o) s') :
      Step F ⟨s, ws⟩ ⟨s', ws.set i (w.stopped o)⟩

/-- What all workers asked and were answered, the latest first, each exchange with the
    operation that made it. -/
abbrev Chronicle (R : Repertoire) := List (R.Op × Exchange)

/-- A step of a scene, with what it adds to the chronicle. -/
inductive Scene.Adds (F : Faults) : Scene R → Chronicle R → Scene R → Prop
  | start {s : Shared} {ws : List (Worker R)} (op : R.Op) :
      Adds F ⟨s, ws⟩ [] ⟨s, ws ++ [R.worker op]⟩
  | wait {s : Shared} {ws : List (Worker R)} {t : Moment} (h : s.now ≤ t) :
      Adds F ⟨s, ws⟩ [] ⟨s.wait t, ws⟩
  | asked {s s' : Shared} {ws : List (Worker R)} {i : Nat} {w : Worker R} {r : Request}
      {next : r.Reply → Program (R.Result w.op)} {reply : r.Reply}
      (hw : ws[i]? = some w) (hleft : w.left = .ok (.ask r next))
      (hs : s.Serves F r (.ok reply) s') :
      Adds F ⟨s, ws⟩ [(w.op, ⟨s'.now, r, reply⟩)] ⟨s', ws.set i (w.asked s' r reply (next reply))⟩
  | stopped {s s' : Shared} {ws : List (Worker R)} {i : Nat} {w : Worker R} {r : Request}
      {next : r.Reply → Program (R.Result w.op)} {o : Overflow}
      (hw : ws[i]? = some w) (hleft : w.left = .ok (.ask r next))
      (hs : s.Serves F r (.error o) s') :
      Adds F ⟨s, ws⟩ [] ⟨s', ws.set i (w.stopped o)⟩

/-- The scenes that steps reach from stores without entries, if every scene on the way
    meets a condition. -/
inductive Reachable (F : Faults) (C : Scene R → Prop) : Scene R → Prop
  | start {s : Shared} (hs : s.coord.entries = ∅) (hC : C ⟨s, []⟩) : Reachable F C ⟨s, []⟩
  | step {σ σ' : Scene R} (h : Reachable F C σ) (hstep : σ.Step F σ') (hC : C σ') :
      Reachable F C σ'

variable {F : Faults} {C : Scene R → Prop} {σ : Scene R}

theorem Scene.Adds.step {σ' : Scene R} {new : Chronicle R} (h : σ.Adds F new σ') :
    σ.Step F σ' := by
  cases h with
  | start op => exact .start op
  | wait ht => exact .wait ht
  | asked hw hleft hs => exact .asked hw hleft hs
  | stopped hw hleft hs => exact .stopped hw hleft hs

theorem Reachable.condition (h : Reachable F C σ) : C σ := by
  cases h with
  | start _ hC => exact hC
  | step _ _ hC => exact hC

/-- A condition that asks for less is met by more scenes. -/
theorem Reachable.mono {C' : Scene R → Prop} (hC : ∀ σ, C σ → C' σ) (h : Reachable F C σ) :
    Reachable F C' σ := by
  induction h with
  | start hs h => exact .start hs (hC _ h)
  | step _ hstep h ih => exact .step ih hstep (hC _ h)

/-- Any number of steps. -/
def Scene.Steps (F : Faults) : Scene R → Scene R → Prop := Relation.ReflTransGen (Scene.Step F)

theorem Reachable.steps {σ' : Scene R} (h : Reachable F (fun _ => True) σ)
    (hsteps : σ.Steps F σ') : Reachable F (fun _ => True) σ' := by
  induction hsteps with
  | refl => exact h
  | tail _ hstep ih => exact .step ih hstep trivial

/-! ### The workers after a step -/

section Workers

variable {ws : List (Worker R)} {w w' v : Worker R} {i j : Nat}

/-- A worker that is there after a start was there before or is the new one. -/
theorem worker_of_start {op : R.Op} (h : (ws ++ [R.worker op])[j]? = some v) :
    ws[j]? = some v ∨ j = ws.length ∧ v = R.worker op := by
  rw [List.getElem?_append] at h
  split at h
  · exact Or.inl h
  · rename_i hj
    right
    rw [List.getElem?_singleton] at h
    split at h
    · exact ⟨by omega, (Option.some.inj h).symm⟩
    · cases h

/-- A worker that is there after a request of another or of itself. -/
theorem worker_of_set (hw : ws[i]? = some w) (h : (ws.set i w')[j]? = some v) :
    j = i ∧ v = w' ∨ j ≠ i ∧ ws[j]? = some v := by
  obtain ⟨hi, _⟩ := List.getElem?_eq_some_iff.mp hw
  rw [List.getElem?_set] at h
  split at h
  · rename_i hij
    exact Or.inl ⟨hij.symm, (Option.some.inj h).symm⟩
  · rename_i hij
    exact Or.inr ⟨fun heq => hij heq.symm, h⟩

end Workers

/-- What a step does to the services: time passes, or one request is answered or
    overflows. -/
inductive Scene.Step.Effect (F : Faults) (σ : Scene R) (s' : Shared) : Prop
  | passes {t : Moment} (ht : σ.shared.now ≤ t) (hs : s' = σ.shared.wait t)
  | asked {w : Worker R} {r : Request} {next : r.Reply → Program (R.Result w.op)}
      {reply : r.Reply} (hw : w ∈ σ.workers) (hleft : w.left = .ok (.ask r next))
      (hs : σ.shared.Serves F r (.ok reply) s')
  | stopped {w : Worker R} {r : Request} {next : r.Reply → Program (R.Result w.op)}
      {o : Overflow} (hw : w ∈ σ.workers) (hleft : w.left = .ok (.ask r next))
      (hs : σ.shared.Serves F r (.error o) s')

/-- How a worker came to be as it is after a step. -/
inductive Scene.Step.Outcome (F : Faults) (σ σ' : Scene R) (j : Nat) (v : Worker R) : Prop
  | same (hv : σ.workers[j]? = some v)
  | started (op : R.Op) (hj : j = σ.workers.length) (hv : v = R.worker op)
  | asked {w : Worker R} {r : Request} {next : r.Reply → Program (R.Result w.op)}
      {reply : r.Reply} (hw : σ.workers[j]? = some w) (hleft : w.left = .ok (.ask r next))
      (hs : σ.shared.Serves F r (.ok reply) σ'.shared)
      (hv : v = w.asked σ'.shared r reply (next reply))
  | stopped {w : Worker R} {r : Request} {next : r.Reply → Program (R.Result w.op)}
      {o : Overflow} (hw : σ.workers[j]? = some w) (hleft : w.left = .ok (.ask r next))
      (hs : σ.shared.Serves F r (.error o) σ'.shared) (hv : v = w.stopped o)

theorem Scene.Step.effect {σ' : Scene R} (h : σ.Step F σ') : Step.Effect F σ σ'.shared := by
  cases h with
  | start op => exact .passes (Nat.le_refl _) rfl
  | wait ht => exact .passes ht rfl
  | asked hw hleft hs => exact .asked (List.mem_of_getElem? hw) hleft hs
  | stopped hw hleft hs => exact .stopped (List.mem_of_getElem? hw) hleft hs

theorem Scene.Step.outcome {σ' : Scene R} {j : Nat} {v : Worker R} (h : σ.Step F σ')
    (hv : σ'.workers[j]? = some v) : Step.Outcome F σ σ' j v := by
  cases h with
  | start op =>
    rcases worker_of_start hv with hold | ⟨hj, hnew⟩
    · exact .same hold
    · exact .started op hj hnew
  | wait _ => exact .same hv
  | asked hw hleft hs =>
    rcases worker_of_set hw hv with ⟨rfl, hnew⟩ | ⟨_, hold⟩
    · exact .asked hw hleft hs hnew
    · exact .same hold
  | stopped hw hleft hs =>
    rcases worker_of_set hw hv with ⟨rfl, hnew⟩ | ⟨_, hold⟩
    · exact .stopped hw hleft hs hnew
    · exact .same hold

theorem Scene.Step.now_le {σ' : Scene R} (h : σ.Step F σ') : σ.shared.now ≤ σ'.shared.now := by
  cases h.effect with
  | passes ht hs => rw [hs]; exact ht
  | asked _ _ hs => exact hs.now_le
  | stopped _ _ hs => exact hs.now_le

/-- No step changes whether the coordination store can be reached. -/
theorem Scene.Step.available {σ' : Scene R} (h : σ.Step F σ') :
    σ'.shared.coord.available = σ.shared.coord.available := by
  cases h.effect with
  | passes _ hs => rw [hs]; rfl
  | asked _ _ hs => exact hs.available
  | stopped _ _ hs => rw [hs.stopped.1]

theorem Scene.Step.length_le {σ' : Scene R} (h : σ.Step F σ') :
    σ.workers.length ≤ σ'.workers.length := by
  cases h <;> simp

/-- Who was started stays, with the same operation. -/
theorem Scene.Step.exists_worker {σ' : Scene R} {j : Nat} {v : Worker R} (h : σ.Step F σ')
    (hv : σ.workers[j]? = some v) : ∃ v', σ'.workers[j]? = some v' ∧ v'.op = v.op := by
  -- The worker whose turn it is is put back with the operation that it had.
  have hset : ∀ {ws : List (Worker R)} {i : Nat} {w w' : Worker R}, ws[i]? = some w →
      w'.op = w.op → ws[j]? = some v → ∃ v', (ws.set i w')[j]? = some v' ∧ v'.op = v.op := by
    intro ws i w w' hw hop hv
    rw [List.getElem?_set]
    split
    · rename_i hij
      subst hij
      rw [hw] at hv
      cases hv
      obtain ⟨hi, _⟩ := List.getElem?_eq_some_iff.mp hw
      exact ⟨w', if_pos hi, hop⟩
    · exact ⟨v, hv, rfl⟩
  cases h with
  | start op =>
    obtain ⟨hj, _⟩ := List.getElem?_eq_some_iff.mp hv
    exact ⟨v, by rw [List.getElem?_append_left hj]; exact hv, rfl⟩
  | wait _ => exact ⟨v, hv, rfl⟩
  | asked hw _ _ => exact hset hw rfl hv
  | stopped hw _ _ => exact hset hw rfl hv

theorem Scene.Steps.exists_worker {σ' : Scene R} {j : Nat} {v : Worker R} (h : σ.Steps F σ')
    (hv : σ.workers[j]? = some v) : ∃ v', σ'.workers[j]? = some v' ∧ v'.op = v.op := by
  induction h with
  | refl => exact ⟨v, hv, rfl⟩
  | tail _ hstep ih =>
    obtain ⟨w, hw, hop⟩ := ih
    obtain ⟨v', hv', hop'⟩ := hstep.exists_worker hw
    exact ⟨v', hv', hop'.trans hop⟩

/-! ### Disciplines -/

/-- What is kept of the requests of an operation, and which requests it may make then. -/
structure Discipline (R : Repertoire) where
  Stage : Type
  /-- The stage before the first request. -/
  fresh : Stage
  after : R.Op → Stage → Exchange → Stage
  Permits : R.Op → Stage → Request → Prop

namespace Discipline

variable (D : Discipline R)

/-- The stage that the requests so far lead to. -/
def stage (op : R.Op) : Log → D.Stage
  | [] => D.fresh
  | x :: log => D.after op (stage op log) x

/-- The terms of a discipline: a request is permitted, and what follows holds at whatever
    stage its answer leads to. -/
def terms (op : R.Op) : Terms D.Stage := fun r Q g =>
  D.Permits op g r ∧ ∀ t reply, Q reply (D.after op g ⟨t, r, reply⟩)

/-- Every program keeps to the discipline. -/
def Holds : Prop :=
  ∀ op, (R.program op).ensures (D.terms op) (fun _ _ => True) D.fresh

/-- The stage of a worker. -/
def stageOf (w : Worker R) : D.Stage := D.stage w.op w.log

/-- What is left of a worker keeps to the discipline. -/
def Kept (w : Worker R) : Prop :=
  ∀ p, w.left = .ok p → p.ensures (D.terms w.op) (fun _ _ => True) (D.stageOf w)

variable {D}

/-- The next request of a worker that keeps to the discipline is permitted. -/
theorem Kept.permits {w : Worker R} (h : D.Kept w) {r : Request}
    {next : r.Reply → Program (R.Result w.op)} (hleft : w.left = .ok (.ask r next)) :
    D.Permits w.op (D.stageOf w) r :=
  (h _ hleft).1

/-- Every program keeps to the discipline, and ends with a value and at a stage that `Q`
    allows. -/
def EndsAs (D : Discipline R) (Q : (op : R.Op) → R.Result op → D.Stage → Prop) : Prop :=
  ∀ op, (R.program op).ensures (D.terms op) (Q op) D.fresh

/-- What is left of a worker keeps to the discipline and ends as `Q` allows. -/
def KeptTo (D : Discipline R) (Q : (op : R.Op) → R.Result op → D.Stage → Prop) (w : Worker R) :
    Prop :=
  ∀ p, w.left = .ok p → p.ensures (D.terms w.op) (Q w.op) (D.stageOf w)

variable {Q : (op : R.Op) → R.Result op → D.Stage → Prop}

theorem KeptTo.permits {w : Worker R} (h : D.KeptTo Q w) {r : Request}
    {next : r.Reply → Program (R.Result w.op)} (hleft : w.left = .ok (.ask r next)) :
    D.Permits w.op (D.stageOf w) r :=
  (h _ hleft).1

/-- A worker that is done has ended as `Q` allows. -/
theorem KeptTo.done {w : Worker R} (h : D.KeptTo Q w) {v : R.Result w.op}
    (hleft : w.left = .ok (.done v)) : Q w.op v (D.stageOf w) :=
  h _ hleft

/-- After a step every worker keeps to the discipline, and ends as its program does, if it did
    so before. -/
theorem EndsAs.keptTo_step {σ' : Scene R} (hD : D.EndsAs Q)
    (h : ∀ w ∈ σ.workers, D.KeptTo Q w) (hstep : σ.Step F σ') :
    ∀ w ∈ σ'.workers, D.KeptTo Q w := by
  cases hstep with
  | start op =>
    intro w hw
    rcases List.mem_append.mp hw with hw | hw
    · exact h w hw
    · rw [List.mem_singleton.mp hw]
      intro p hp
      cases hp
      exact hD op
  | wait _ => exact h
  | @asked s s' ws i w r next reply hw hleft hs =>
    intro v hv
    rcases List.mem_or_eq_of_mem_set hv with hv | rfl
    · exact h v hv
    · -- The terms hold at any time and for any reply, whatever the others have done.
      have hkept := h w (List.mem_of_getElem? hw) _ hleft
      intro p hp
      cases hp
      exact hkept.2 s'.now reply
  | @stopped s s' ws i w r next o hw hleft hs =>
    intro v hv
    rcases List.mem_or_eq_of_mem_set hv with hv | rfl
    · exact h v hv
    · -- Nothing is left to run.
      intro p hp
      cases hp

/-- Every worker of a reachable scene keeps to the discipline, and ends as its program
    does. -/
theorem EndsAs.keptTo (hD : D.EndsAs Q) (h : Reachable F C σ) :
    ∀ w ∈ σ.workers, D.KeptTo Q w := by
  induction h with
  | start _ _ => exact nofun
  | step _ hstep _ ih => exact hD.keptTo_step ih hstep

/-- Every worker of a reachable scene keeps to the discipline. -/
theorem Holds.kept (hD : D.Holds) (h : Reachable F C σ) : ∀ w ∈ σ.workers, D.Kept w :=
  EndsAs.keptTo (Q := fun _ _ _ => True) hD h

/-- In every reachable scene the next request of every worker is permitted. -/
theorem Holds.permits (hD : D.Holds) (h : Reachable F C σ) {i : Nat} {w : Worker R}
    (hw : σ.workers[i]? = some w) {r : Request} {next : r.Reply → Program (R.Result w.op)}
    (hleft : w.left = .ok (.ask r next)) : D.Permits w.op (D.stageOf w) r :=
  (hD.kept h w (List.mem_of_getElem? hw)).permits hleft

/-! ### Disciplines of logs -/

/-- The terms of a program whose requests depend on what was asked and answered before. -/
def watching (Permits : Log → Request → Prop) : Terms Log := fun r Q log =>
  Permits log r ∧ ∀ t reply, Q reply (⟨t, r, reply⟩ :: log)

/-- The discipline that keeps everything that was asked and answered. -/
def ofLog (Permits : R.Op → Log → Request → Prop) : Discipline R :=
  ⟨Log, [], fun _ log x => x :: log, Permits⟩

@[simp] theorem stageOf_ofLog (Permits : R.Op → Log → Request → Prop) (w : Worker R) :
    (ofLog Permits).stageOf w = w.log := by
  unfold stageOf
  induction w.log with
  | nil => rfl
  | cons x log ih => exact congrArg (x :: ·) ih

theorem endsAs_ofLog {Permits : R.Op → Log → Request → Prop}
    {Q : (op : R.Op) → R.Result op → Log → Prop}
    (h : ∀ op, (R.program op).ensures (watching (Permits op)) (Q op) []) :
    (ofLog Permits).EndsAs Q :=
  h

/-- A program that keeps to its terms keeps to them when it runs alone, where every
    permitted request keeps `I` up. -/
theorem ends_watching {Permits : Log → Request → Prop} {α : Type} {prog : Program α}
    {Q : α → Log → Prop} {I : Point → Prop} {J : Overflow → Point → Prop} {p p' : Point}
    {out : Checked α} (h : prog.Ends F p out p')
    (hprog : prog.ensures (watching Permits) Q p.log) (hI : I p)
    (hasked : ∀ p r reply s', I p → Permits p.log r →
      p.shared.Serves F r (.ok reply) s' → I (p.asked s' r reply))
    (hstopped : ∀ p r o s', I p → Permits p.log r →
      p.shared.Serves F r (.error o) s' → J o (p.stopped s')) :
    (∀ a, out = .ok a → I p' ∧ Q a p'.log) ∧ ∀ o, out = .error o → J o p' := by
  induction h with
  | done a p =>
    refine ⟨fun b hb => ?_, fun o ho => by cases ho⟩
    cases hb
    exact ⟨hI, hprog⟩
  | asked hs _ ih => exact ih (hprog.2 _ _) (hasked _ _ _ _ hI hprog.1 hs)
  | stopped hs =>
    refine ⟨fun a ha => (by cases ha), fun o ho => ?_⟩
    cases ho
    exact hstopped _ _ _ _ hI hprog.1 hs

/-- A discipline watches the logs, since they tell its stages. -/
theorem ensures_watching {α : Type} {prog : Program α} {op : R.Op} {Q : α → D.Stage → Prop}
    (log : Log) (h : prog.ensures (D.terms op) Q (D.stage op log)) :
    prog.ensures (watching fun log => D.Permits op (D.stage op log))
      (fun a log => Q a (D.stage op log)) log := by
  induction prog generalizing log with
  | done a => exact h
  | ask r next ih => exact ⟨h.1, fun t reply => ih reply _ (h.2 t reply)⟩

end Discipline

end ExecutionControl
