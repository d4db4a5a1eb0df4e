import ExecutionControl.Proofs.Services

/-! # Runs of the coordination store

    A run is a sequence of steps: calls with any arguments, each at a time of its own, and
    switches that bring trouble or end it. A call that overflows has no answer and changes
    nothing; every other call is answered, by an error perhaps.
-/

namespace ExecutionControl

/-- One step of a run. -/
inductive CoordStep where
  /-- A call is made at a time. -/
  | call (now : Moment) (call : CoordCall)
  /-- From now on the store can be reached or cannot, and can delete by pattern or cannot. -/
  | switch (available patternDelete : Bool)

/-- When a step takes place, if it is a call. -/
def CoordStep.time? : CoordStep → Option Moment
  | .call now _ => some now
  | .switch .. => none

/-- How far a run has come: the store, and what it answered, the latest first. -/
structure CoordRun where
  store : CoordStore := {}
  log : Log := []

namespace CoordRun

variable {σ : CoordRun} {now : Moment} {call : CoordCall} {x : CoordStep} {steps : List CoordStep}

/-- Take one step. -/
def step (σ : CoordRun) : CoordStep → CoordRun
  | .call now call =>
    match σ.store.perform now call with
    | .ok (answer, store) => ⟨store, ⟨now, .coord call, answer⟩ :: σ.log⟩
    | .error _ => σ
  | .switch available patternDelete => { σ with store := { σ.store with available, patternDelete } }

/-- Take steps one after another. -/
def after (σ : CoordRun) (steps : List CoordStep) : CoordRun := steps.foldl step σ

theorem after_append {more : List CoordStep} :
    σ.after (steps ++ more) = (σ.after steps).after more :=
  List.foldl_append

theorem step_answered {answer : Except CoordError call.Result} {s' : CoordStore}
    (h : σ.store.perform now call = .ok (answer, s')) :
    σ.step (.call now call) = ⟨s', ⟨now, .coord call, answer⟩ :: σ.log⟩ := by
  simp only [step, h]

theorem step_overflowed {o : Overflow} (h : σ.store.perform now call = .error o) :
    σ.step (.call now call) = σ := by
  simp only [step, h]

end CoordRun

end ExecutionControl
