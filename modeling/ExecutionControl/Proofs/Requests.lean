import ExecutionControl.Proofs.Interleaving

/-! # What programs ask for

    `Asks` says of a program which requests it may make, at whatever point and whatever it
    was answered before. What a program leaves alone follows from that one request at a time
    (`Ends.keeps`), and so does what it can notice: on two states that answer its requests
    alike it does the same (`Ends.simulate`). Where the stages of a discipline say more of the
    next request, the one step may depend on them (`Ends.follows`).

    A request that names a key in the coordination store leaves all other keys alone
    (`Serves.entries_of_spares`).
-/

namespace ExecutionControl

variable {α β ε : Type} {P P' : Request → Prop}

/-! ### Programs -/

namespace Program

/-- A program makes only requests that meet `P`, whatever the replies. -/
def Asks (P : Request → Prop) : Program α → Prop
  | .done _ => True
  | .ask r next => P r ∧ ∀ reply, (next reply).Asks P

variable {prog : Program α}

/-- Requests that meet `P` may meet something weaker. -/
theorem Asks.imp (h : prog.Asks P) (hP : ∀ r, P r → P' r) : prog.Asks P' := by
  induction prog with
  | done a => exact trivial
  | ask r next ih => exact ⟨hP r h.1, fun reply => ih reply (h.2 reply)⟩

theorem asks_pure (a : α) : (pure a : Program α).Asks P := trivial

theorem asks_request {r : Request} (h : P r) : (request r).Asks P := ⟨h, fun _ => trivial⟩

theorem asks_coord {call : CoordCall} (h : P (.coord call)) : (coord call).Asks P :=
  asks_request h

theorem asks_limits {call : LimitCall} (h : P (.limits call)) : (limits call).Asks P :=
  asks_request h

theorem asks_stop {o : Overflow} (h : P (.stop o)) : (stop o : Program α).Asks P :=
  ⟨h, fun reply => reply.elim⟩

theorem asks_ofChecked {x : Checked α} (h : ∀ o, P (.stop o)) : (ofChecked x).Asks P := by
  cases x with
  | ok a => exact asks_pure a
  | error o => exact asks_stop (h o)

/-- One program after another makes the requests of both. -/
theorem Asks.bind {f : α → Program β} (h : prog.Asks P) (hf : ∀ a, (f a).Asks P) :
    (prog >>= f).Asks P := by
  show (prog.bind f).Asks P
  induction prog with
  | done a => exact hf a
  | ask r next ih => exact ⟨h.1, fun reply => ih reply (h.2 reply)⟩

theorem Asks.map {f : α → β} (h : prog.Asks P) : (f <$> prog).Asks P := by
  rw [← bind_pure_comp]
  exact h.bind fun a => asks_pure (f a)

/-- What a discipline permits at some stage, its programs ask for. -/
theorem asks_of_ensures {R : Repertoire} {D : Discipline R} {op : R.Op}
    {Q : α → D.Stage → Prop} {g : D.Stage} (h : prog.ensures (D.terms op) Q g) :
    prog.Asks fun r => ∃ g, D.Permits op g r := by
  induction prog generalizing g with
  | done a => exact trivial
  | ask r next ih => exact ⟨⟨g, h.1⟩, fun reply => ih reply (h.2 0 reply)⟩

/-- Terms that only watch may ask for what the program asks for anyway. -/
theorem Asks.watching {Q : α → Log → Prop} {log : Log} (h : prog.Asks P)
    (hQ : prog.ensures (Discipline.watching fun _ _ => True) Q log) :
    prog.ensures (Discipline.watching fun _ => P) Q log := by
  induction prog generalizing log with
  | done a => exact hQ
  | ask r next ih => exact ⟨h.1, fun t reply => ih reply (h.2 reply) (hQ.2 t reply)⟩

/-! ### Parts of programs that an error ends -/

section Parts

variable {x : ExceptT ε Program α}

theorem asks_run_pure (a : α) : (pure a : ExceptT ε Program α).run.Asks P := trivial

theorem asks_run_throw (e : ε) : (throw e : ExceptT ε Program α).run.Asks P := trivial

theorem Asks.run_bind {f : α → ExceptT ε Program β} (h : x.run.Asks P)
    (hf : ∀ a, (f a).run.Asks P) : (x >>= f).run.Asks P := by
  rw [ExceptT.run_bind]
  refine h.bind fun outcome => ?_
  cases outcome with
  | ok a => exact hf a
  | error e => exact trivial

theorem Asks.run_lift (h : prog.Asks P) : (liftM prog : ExceptT ε Program α).run.Asks P := by
  rw [ExceptT.run_liftM]
  exact h.map

theorem asks_run_call {call : CoordCall} (h : P (.coord call)) :
    (Coord.call call).run.Asks P :=
  asks_request h

theorem Asks.run_attempt {x : Coord α} (h : x.run.Asks P) : (Coord.attempt x).run.Asks P := by
  unfold Coord.attempt
  rw [ExceptT.run_lift]
  exact h.map

end Parts

/-! ### Executions -/

variable {F : Faults} {out : Checked α} {p p' : Point}

/-- What no request of a program changes is as before once the program is over. -/
theorem Ends.keeps {I : Shared → Prop} (h : prog.Ends F p out p') (hasks : prog.Asks P)
    (hserves : ∀ s r reply s', I s → P r → s.Serves F r reply s' → I s') (hI : I p.shared) :
    I p'.shared := by
  induction h with
  | done a p => exact hI
  | asked hs _ ih => exact ih (hasks.2 _) (hserves _ _ _ _ hI hasks.1 hs)
  | stopped hs => exact hserves _ _ _ _ hI hasks.1 hs

/-- If one state can do whatever another can do for the requests of a program, then the
    program ends there as it ends here, with the same replies on the way. -/
theorem Ends.simulate {R : Shared → Shared → Prop} {q : Shared} (h : prog.Ends F p out p')
    (hasks : prog.Asks P) (hR : R p.shared q)
    (hserves : ∀ s q r reply s', R s q → P r → s.Serves F r reply s' →
      ∃ q', q.Serves F r reply q' ∧ q'.now = s'.now ∧ R s' q') :
    ∃ q', prog.Ends F ⟨q, p.log⟩ out ⟨q', p'.log⟩ ∧ R p'.shared q' := by
  induction h generalizing q with
  | done a p => exact ⟨q, .done a _, hR⟩
  | @asked r next p p' reply s' out hs _ ih =>
    obtain ⟨q₁, hq, hnow, hR₁⟩ := hserves _ _ _ _ _ hR hasks.1 hs
    obtain ⟨q', hends, hR'⟩ := ih (hasks.2 reply) hR₁
    refine ⟨q', .asked hq ?_, hR'⟩
    -- The same reply at the same time makes the same entry in the log.
    rw [Point.asked, hnow]
    exact hends
  | stopped hs =>
    obtain ⟨q', hq, _, hR'⟩ := hserves _ _ _ _ _ hR hasks.1 hs
    exact ⟨q', .stopped hq, hR'⟩

end Program

/-! ### Stages of a program that runs alone -/

section Stages

variable {R : Repertoire} {D D' : Discipline R} {op : R.Op}

/-- Two disciplines, kept at once. -/
def Discipline.both (D D' : Discipline R) : Discipline R where
  Stage := D.Stage × D'.Stage
  fresh := (D.fresh, D'.fresh)
  after op g x := (D.after op g.1 x, D'.after op g.2 x)
  Permits op g r := D.Permits op g.1 r ∧ D'.Permits op g.2 r

theorem Program.ensures_both {prog : Program α} {Q : α → D.Stage → Prop}
    {Q' : α → D'.Stage → Prop} {g : D.Stage} {g' : D'.Stage}
    (h : prog.ensures (D.terms op) Q g) (h' : prog.ensures (D'.terms op) Q' g') :
    prog.ensures ((D.both D').terms op) (fun a stages => Q a stages.1 ∧ Q' a stages.2)
      (g, g') := by
  induction prog generalizing g g' with
  | done a => exact ⟨h, h'⟩
  | ask r next ih => exact ⟨⟨h.1, h'.1⟩, fun t reply => ih reply (h.2 t reply) (h'.2 t reply)⟩

theorem Discipline.EndsAs.both {Q : (op : R.Op) → R.Result op → D.Stage → Prop}
    {Q' : (op : R.Op) → R.Result op → D'.Stage → Prop} (h : D.EndsAs Q) (h' : D'.EndsAs Q') :
    (D.both D').EndsAs fun op result g => Q op result g.1 ∧ Q' op result g.2 :=
  fun op => Program.ensures_both (h op) (h' op)

/-- What every permitted request keeps up holds at the stage where a program ends, or where
    one of its requests overflows. -/
theorem Program.Ends.follows {F : Faults} {prog : Program α} {p p' : Point} {out : Checked α}
    {Q : α → D.Stage → Prop} {I : D.Stage → Shared → Prop} {g : D.Stage}
    (h : prog.Ends F p out p') (hprog : prog.ensures (D.terms op) Q g)
    (hserves : ∀ g s r reply s', I g s → D.Permits op g r → s.Serves F r (.ok reply) s' →
      I (D.after op g ⟨s'.now, r, reply⟩) s') (hI : I g p.shared) :
    (∀ a, out = .ok a → ∃ g', Q a g' ∧ I g' p'.shared) ∧
      ∀ o, out = .error o → ∃ g' s r, I g' s ∧ D.Permits op g' r ∧
        s.Serves F r (.error o) p'.shared := by
  induction h generalizing g with
  | done a p =>
    refine ⟨fun b hb => ?_, nofun⟩
    cases hb
    exact ⟨g, hprog, hI⟩
  | asked hs _ ih => exact ih (hprog.2 _ _) (hserves _ _ _ _ _ hI hprog.1 hs)
  | stopped hs =>
    refine ⟨nofun, fun o ho => ?_⟩
    cases ho
    exact ⟨g, _, _, hI, hprog.1, hs⟩

end Stages

/-! ### Requests that leave a key alone -/

/-- Whether a request leaves the entry of a key alone: it is for another service, or for
    another key. -/
def Request.Spares (key : String) (r : Request) : Prop :=
  ∀ call, r = .coord call → key ≠ call.subject ∧ ∀ pattern, call ≠ .deletePattern pattern

theorem Shared.Serves.entries_of_spares {F : Faults} {s s' : Shared} {r : Request}
    {reply : Checked r.Reply} {key : String} (h : s.Serves F r reply s') (hr : r.Spares key) :
    s'.coord.entries[key]? = s.coord.entries[key]? := by
  cases r with
  | coord call =>
    obtain ⟨hkey, hpattern⟩ := hr call rfl
    obtain ⟨_, _, ⟨answer, _, hp⟩ | ⟨_, hcoord⟩ | ⟨_, hcoord⟩⟩ := h.coord
    · exact CoordStore.perform_entries_of_ne hp hkey hpattern
    · rw [hcoord]
    · rw [hcoord]
  | _ => rw [h.coord_eq (by simp)]

end ExecutionControl
