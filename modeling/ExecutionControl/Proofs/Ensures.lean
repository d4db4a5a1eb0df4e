import ExecutionControl.Admission.Control
import ExecutionControl.Proofs.Services

/-! # What programs ensure

    A program makes requests and goes on with their replies. Terms say for one request
    what has to hold where it is made, for something to hold once it is answered;
    `ensures` carries that over to whole programs, one request after another, so that
    `ensures_bind` splits a program where it was put together.

    Two kinds of terms are used. Those of the shared services (`serving`) speak of what a
    program does when it runs alone: `Ends.of_ensures` brings them back to the executions
    themselves. Others only watch the requests of a program, for programs that run between
    the requests of others.
-/

namespace ExecutionControl

variable {α β σ : Type}

/-! ### Terms -/

/-- What has to hold where a request is made, for something to hold once it is answered. -/
abbrev Terms (σ : Type) := (r : Request) → (r.Reply → σ → Prop) → σ → Prop

variable {T : Terms σ}

/-! ### Programs -/

-- What a call gives back depends on the call, and is mostly written in its reduced form:
-- the equations for calls are not found by that type.
namespace Program

/-- What has to hold before a program, for `Q` to hold after it. -/
def ensures (T : Terms σ) (Q : α → σ → Prop) : Program α → σ → Prop
  | .done a => Q a
  | .ask r next => T r fun reply => (next reply).ensures T Q

variable {Q : α → σ → Prop}

@[simp] theorem ensures_pure (a : α) : (pure a : Program α).ensures T Q = Q a := rfl

@[simp] theorem ensures_coord (c : CoordCall) (Q : Except CoordError c.Result → σ → Prop) :
    @ensures (no_index (Except CoordError c.Result)) σ T Q (coord c) = T (.coord c) Q := rfl

@[simp] theorem ensures_limits (c : LimitCall) (Q : Except StoreError c.Result → σ → Prop) :
    @ensures (no_index (Except StoreError c.Result)) σ T Q (limits c) = T (.limits c) Q := rfl

@[simp] theorem ensures_files (c : FileCall) (Q : Except StoreError c.Result → σ → Prop) :
    @ensures (no_index (Except StoreError c.Result)) σ T Q (files c) = T (.files c) Q := rfl

@[simp] theorem ensures_time (Q : Timestamp → σ → Prop) : time.ensures T Q = T .time Q := rfl

@[simp] theorem ensures_clock (Q : Moment → σ → Prop) : clock.ensures T Q = T .clock Q := rfl

@[simp] theorem ensures_sleep (span : Duration) (Q : Unit → σ → Prop) :
    (sleep span).ensures T Q = T (.sleep span) Q := rfl

@[simp] theorem ensures_token (Q : String → σ → Prop) : token.ensures T Q = T .token Q := rfl

@[simp] theorem ensures_report (event : Event) (Q : Unit → σ → Prop) :
    (report event).ensures T Q = T (.report event) Q := rfl

theorem ensures_ofChecked {x : Checked α} {s : σ} (hok : ∀ a, x = .ok a → Q a s)
    (herror : ∀ o, x = .error o → (stop o).ensures T Q s) : (ofChecked x).ensures T Q s := by
  cases x with
  | ok a => exact hok a rfl
  | error o => exact herror o rfl

@[simp] theorem ensures_bind (p : Program α) (f : α → Program β) (Q : β → σ → Prop) :
    (p >>= f).ensures T Q = p.ensures T fun a => (f a).ensures T Q := by
  show (p.bind f).ensures T Q = _
  induction p with
  | done a => rfl
  | ask r next ih => exact congrArg (T r) (funext fun reply => ih reply)

@[simp] theorem ensures_map (f : α → β) (p : Program α) (Q : β → σ → Prop) :
    (f <$> p).ensures T Q = p.ensures T fun a => Q (f a) := by
  rw [← bind_pure_comp, ensures_bind]
  rfl

end Program

/-! ### Scripts -/

/-- The terms of a script: at every cue a program makes a request that the script has there,
    and the reply leads to the next cue. -/
def following {κ : Type} (Asks : κ → (r : Request) → (r.Reply → κ) → Prop) : Terms κ :=
  fun r Q c => ∃ next, Asks c r next ∧ ∀ reply, Q reply (next reply)

/-- A program that follows a script ensures under any terms what every request of the script
    keeps up. -/
theorem Program.ensures.of_following {κ : Type} {Asks : κ → (r : Request) → (r.Reply → κ) → Prop}
    {prog : Program α} {Fin : α → κ → Prop} {A : κ → σ → Prop} {Q : α → σ → Prop} {c : κ} {s : σ}
    (h : prog.ensures (following Asks) Fin c) (hA : A c s)
    (hasks : ∀ c r next s (Q : r.Reply → σ → Prop), Asks c r next → A c s →
      (∀ reply s', A (next reply) s' → Q reply s') → T r Q s)
    (hend : ∀ a c s, Fin a c → A c s → Q a s) : prog.ensures T Q s := by
  induction prog generalizing c s with
  | done a => exact hend a c s h hA
  | ask r next ih =>
    obtain ⟨cue, hcue, hrest⟩ := h
    exact hasks c r cue s _ hcue hA fun reply s' hs' => ih reply (hrest reply) hs'

/-! ### Parts of programs that an error ends -/

namespace Coord

/-- What has to hold before a part of a program, for `Q` to hold if it succeeds and `E` if
    it fails. -/
def ensures (T : Terms σ) (Q : α → σ → Prop) (E : CoordError → σ → Prop) (x : Coord α) :
    σ → Prop :=
  x.run.ensures T fun
    | .ok a => Q a
    | .error e => E e

variable {Q : α → σ → Prop} {E : CoordError → σ → Prop}

@[simp] theorem ensures_pure (a : α) : Coord.ensures T Q E (pure a) = Q a := rfl

@[simp] theorem ensures_throw (e : CoordError) :
    Coord.ensures T Q E (throw e : Coord α) = E e := rfl

@[simp] theorem ensures_call (c : CoordCall) (Q : c.Result → σ → Prop) :
    @Coord.ensures (no_index c.Result) σ T Q E (Coord.call c) =
      T (.coord c) fun
        | .ok a => Q a
        | .error e => E e := by
  show T (.coord c) _ = T (.coord c) _
  congr 1
  funext outcome
  cases outcome <;> rfl

@[simp] theorem ensures_bind (x : Coord α) (f : α → Coord β) (Q : β → σ → Prop) :
    Coord.ensures T Q E (x >>= f) =
      Coord.ensures T (fun a => Coord.ensures T Q E (f a)) E x := by
  unfold Coord.ensures
  rw [ExceptT.run_bind, Program.ensures_bind]
  congr 1
  funext outcome
  cases outcome <;> rfl

@[simp] theorem ensures_lift (p : Program α) :
    Coord.ensures T Q E (liftM p : Coord α) = p.ensures T Q := by
  unfold Coord.ensures
  rw [ExceptT.run_liftM, Program.ensures_map]

@[simp] theorem ensures_attempt (x : Coord α) (Q : Except CoordError α → σ → Prop) :
    Coord.ensures T Q E (Coord.attempt x) =
      Coord.ensures T (fun a => Q (.ok a)) (fun e => Q (.error e)) x := by
  unfold Coord.ensures Coord.attempt
  rw [ExceptT.run_lift, Program.ensures_map]
  congr 1
  funext outcome
  cases outcome <;> rfl

end Coord

/-- A program goes on with the outcome of a part of it. -/
@[simp] theorem Program.ensures_run (x : Coord α) (Q : Except CoordError α → σ → Prop) :
    Program.ensures T Q x.run =
      Coord.ensures T (fun a => Q (.ok a)) (fun e => Q (.error e)) x := by
  unfold Coord.ensures
  congr 1
  funext outcome
  cases outcome <;> rfl

/-! ### Executions -/

/-- A point of an execution: the services, and what was asked of them so far. -/
structure Point where
  shared : Shared
  log : Log := []

/-- The point after a request is answered. -/
def Point.asked (p : Point) (s' : Shared) (r : Request) (reply : r.Reply) : Point :=
  ⟨s', ⟨s'.now, r, reply⟩ :: p.log⟩

/-- The point after a request that overflows. -/
def Point.stopped (p : Point) (s' : Shared) : Point := ⟨s', p.log⟩

/-- A program that runs alone ends with a value, or with the overflow of one of its
    requests. -/
inductive Program.Ends (F : Faults) : Program α → Point → Checked α → Point → Prop
  | done (a : α) (p : Point) : Ends F (.done a) p (.ok a) p
  | asked {r : Request} {next : r.Reply → Program α} {p p' : Point} {reply : r.Reply}
      {s' : Shared} {out : Checked α} :
      p.shared.Serves F r (.ok reply) s' → Ends F (next reply) (p.asked s' r reply) out p' →
      Ends F (.ask r next) p out p'
  | stopped {r : Request} {next : r.Reply → Program α} {p : Point} {o : Overflow}
      {s' : Shared} :
      p.shared.Serves F r (.error o) s' → Ends F (.ask r next) p (.error o) (p.stopped s')

/-- A program that ends without trouble may end so where there is some. -/
theorem Program.Ends.of_never {F : Faults} {prog : Program α} {p p' : Point} {out : Checked α}
    (h : prog.Ends .never p out p') : prog.Ends F p out p' := by
  induction h with
  | done a p => exact .done a p
  | asked hs _ ih => exact .asked hs.of_never ih
  | stopped hs => exact .stopped hs.of_never

/-- The terms of the shared services, where `O` has to hold after an overflow. -/
def serving (F : Faults) (O : Overflow → Point → Prop) : Terms Point := fun r Q p =>
  (∀ reply s', p.shared.Serves F r (.ok reply) s' → Q reply (p.asked s' r reply)) ∧
    ∀ o s', p.shared.Serves F r (.error o) s' → O o (p.stopped s')

variable {F : Faults} {O : Overflow → Point → Prop}

/-- A call to the coordination store is carried out, or it fails and changes nothing; or it
    overflows. -/
theorem serving_coord {call : CoordCall} {Q : Except CoordError call.Result → Point → Prop}
    {p : Point}
    (hcarried : ∀ reply s', p.shared.now ≤ s'.now →
      p.shared.coord.perform s'.now call = .ok (reply, s'.coord) →
      Q reply (p.asked s' (.coord call) reply))
    (hfailed : ∀ e s', p.shared.now ≤ s'.now → s'.coord = p.shared.coord → F.coord call e →
      Q (.error e) (p.asked s' (.coord call) (.error e)))
    (hstopped : ∀ o s', p.shared.now ≤ s'.now → s'.coord = p.shared.coord →
      p.shared.coord.perform s'.now call = .error o → O o (p.stopped s')) :
    serving F O (.coord call) Q p := by
  refine ⟨fun reply s' hs => ?_, fun o s' hs => ?_⟩
  · rcases hs.answered with hp | ⟨⟨e, he, rfl⟩, hcoord⟩
    · exact hcarried reply s' hs.now_le hp
    · exact hfailed e s' hs.now_le hcoord he
  · exact hstopped o s' hs.now_le hs.stopped.1 hs.coord_error

/-- A call that cannot fail, and that succeeds whenever it is carried out. -/
theorem serving_carried {call : CoordCall} {Q : Except CoordError call.Result → Point → Prop}
    {p : Point} {v : Moment → call.Result} {coord : Moment → CoordStore}
    (hF : ∀ e, ¬ F.coord call e)
    (hp : ∀ t, p.shared.coord.perform t call = .ok (.ok (v t), coord t))
    (hQ : ∀ s', p.shared.now ≤ s'.now → s'.coord = coord s'.now →
      Q (.ok (v s'.now)) (p.asked s' (.coord call) (.ok (v s'.now)))) :
    serving F O (.coord call) Q p := by
  refine serving_coord (fun reply s' hnow hreply => ?_) (fun e s' _ _ he => absurd he (hF e))
    fun o s' _ _ herror => ?_
  · rw [hp] at hreply
    obtain ⟨hv, hcoord⟩ := Prod.mk.inj (Except.ok.inj hreply)
    rw [← hv]
    exact hQ s' hnow hcoord.symm
  · rw [hp] at herror
    cases herror

/-- Other requests leave the coordination store alone, and do not overflow. -/
theorem serving_other {r : Request} {Q : r.Reply → Point → Prop} {p : Point}
    (hr : (∀ call, r ≠ .coord call) ∧ ∀ o, r ≠ .stop o)
    (hQ : ∀ reply s', p.shared.now ≤ s'.now → s'.coord = p.shared.coord →
      Q reply (p.asked s' r reply)) : serving F O r Q p := by
  refine ⟨fun reply s' hs => hQ reply s' hs.now_le (hs.coord_eq hr.1), fun o s' hs => ?_⟩
  exact absurd hs (Shared.Serves.ne_overflow hr)

/-- The clock shows the time at which it is read. -/
theorem serving_clock {Q : Moment → Point → Prop} {p : Point}
    (hQ : ∀ s', p.shared.now ≤ s'.now → s'.coord = p.shared.coord →
      Q s'.now (p.asked s' .clock s'.now)) : serving F O .clock Q p := by
  refine ⟨fun reply s' hs => ?_, fun o s' hs => absurd hs (Shared.Serves.ne_overflow (by simp))⟩
  rw [hs.clock]
  exact hQ s' hs.now_le (hs.coord_eq (by simp))

/-- A sleep lasts at least as long as it was asked to. -/
theorem serving_sleep {span : Duration} {Q : Unit → Point → Prop} {p : Point}
    (hQ : ∀ s', p.shared.now + span.nanos ≤ s'.now → s'.coord = p.shared.coord →
      Q () (p.asked s' (.sleep span) ())) : serving F O (.sleep span) Q p :=
  ⟨fun _ s' hs => hQ s' hs.span_le (hs.coord_eq (by simp)),
    fun _ _ hs => absurd hs (Shared.Serves.ne_overflow (by simp))⟩

/-- A program that ends with an overflow leaves everything as it is. -/
theorem serving_stop {o : Overflow} {Q : α → Point → Prop} {p : Point}
    (h : ∀ s', p.shared.now ≤ s'.now → s'.coord = p.shared.coord → O o (p.stopped s')) :
    (Program.stop o : Program α).ensures (serving F O) Q p := by
  refine ⟨fun reply => reply.elim, fun o' s' hs => ?_⟩
  rcases hs.overflow with ⟨call, hcall, _⟩ | hstop
  · cases hcall
  · cases hstop
    exact h s' hs.now_le hs.stopped.1

/-- A program ensures whatever follows from what it ensures. -/
theorem Program.ensures.imp {prog : Program α} {p : Point} {Q Q' : α → Point → Prop}
    (h : prog.ensures (serving F O) Q p) (hQ : ∀ a p', Q a p' → Q' a p') :
    prog.ensures (serving F O) Q' p := by
  induction prog generalizing p with
  | done a => exact hQ a p h
  | ask r next ih => exact ⟨fun reply s' hs => ih reply (h.1 reply s' hs), h.2⟩

/-- What a program ensures holds wherever it ends. -/
theorem Program.Ends.of_ensures {prog : Program α} {p p' : Point} {out : Checked α}
    {Q : α → Point → Prop} (h : prog.Ends F p out p') (hprog : prog.ensures (serving F O) Q p) :
    (∀ a, out = .ok a → Q a p') ∧ ∀ o, out = .error o → O o p' := by
  induction h with
  | done a p =>
    refine ⟨fun b hb => ?_, fun o ho => by cases ho⟩
    cases hb
    exact hprog
  -- The terms of a request speak of every reply, and so of the one that was given.
  | asked hs _ ih => exact ih (hprog.1 _ _ hs)
  | stopped hs =>
    refine ⟨fun a ha => (by cases ha), fun o ho => ?_⟩
    cases ho
    exact hprog.2 _ _ hs

/-- Answer a request without delay, where the calls that `fails` picks out fail. -/
def Point.answer (fails : CoordCall → Option CoordError) (r : Request) (p : Point) :
    Checked r.Reply × Point :=
  match p.shared.answerUnless fails r with
  | (.ok reply, s') => (.ok reply, p.asked s' r reply)
  | (.error o, s') => (.error o, p.stopped s')

/-- A program that is run ends. -/
theorem Program.ends_run {fails : CoordCall → Option CoordError}
    (hfails : ∀ call e, fails call = some e → F.coord call e) (prog : Program α) (p : Point) :
    prog.Ends F p (prog.run (Point.answer fails) p).1 (prog.run (Point.answer fails) p).2 := by
  induction prog generalizing p with
  | done a => exact .done a p
  | ask r next ih =>
    -- What is answered is one of the answers that the services may give.
    have hs := Shared.serves_answerUnless hfails p.shared r
    rw [run_ask]
    unfold Point.answer
    rcases hanswer : p.shared.answerUnless fails r with ⟨o | reply, s'⟩
    all_goals rw [hanswer] at hs
    · exact .stopped hs
    · exact .asked hs (ih reply _)

end ExecutionControl
