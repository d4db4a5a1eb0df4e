import ExecutionControl.Proofs.Requests

/-! # Stretches of an execution

    An execution of a program that was put together of two is an execution of the first and
    then one of the second (`Ends.bind_cases`). Each stretch stands for itself: what was asked
    before it has no bearing on it (`Ends.alone`), and if it asks for something at all, the
    time that passed before it could as well pass within (`Ends.sooner`).

    In a stretch of a program no other requests are answered than those it may make
    (`Ends.answered`), and none other overflows (`Ends.overflow`).

    Where something is known of the services until a time, terms are needed only for the
    requests that are answered by then (`servingUntil`).
-/

namespace ExecutionControl

variable {α β : Type} {P : Request → Prop} {F : Faults} {p p' : Point}

/-- A request can be answered as well if nobody has waited before. -/
theorem Shared.Serves.sooner {s s' : Shared} {t : Moment} {r : Request} {reply : Checked r.Reply}
    (h : (s.wait t).Serves F r reply s') (ht : s.now ≤ t) : s.Serves F r reply s' := by
  obtain ⟨t', ht', hserves⟩ := h
  exact ⟨t', Nat.le_trans (Nat.add_le_add_right ht _) ht', hserves⟩

namespace Program

variable {prog : Program α} {out : Checked α}

/-- A program that goes on with the value of another ends after both, or the first overflows. -/
theorem Ends.bind_cases {f : α → Program β} {out : Checked β}
    (h : (prog >>= f).Ends F p out p') :
    (∃ a q, prog.Ends F p (.ok a) q ∧ (f a).Ends F q out p') ∨
      ∃ o, out = .error o ∧ prog.Ends F p (.error o) p' := by
  induction prog generalizing p with
  | done a => exact .inl ⟨a, p, .done a p, h⟩
  | ask r next ih =>
    replace h : (Program.ask r fun reply => (next reply).bind f).Ends F p out p' := h
    cases h with
    | asked hs hrest =>
      rcases ih _ hrest with ⟨a, q, hfirst, hsecond⟩ | ⟨o, rfl, hfirst⟩
      · exact .inl ⟨a, q, .asked hs hfirst, hsecond⟩
      · exact .inr ⟨o, rfl, .asked hs hfirst⟩
    | stopped hs => exact .inr ⟨_, rfl, .stopped hs⟩

/-- A stretch adds to the log, and would add the same to any other. -/
theorem Ends.alone (h : prog.Ends F p out p') :
    ∃ added, p'.log = added ++ p.log ∧
      ∀ log, prog.Ends F ⟨p.shared, log⟩ out ⟨p'.shared, added ++ log⟩ := by
  induction h with
  | done a p => exact ⟨[], rfl, fun log => .done a _⟩
  | @asked r next p p' reply s' out hs _ ih =>
    obtain ⟨added, hlog, hends⟩ := ih
    refine ⟨added ++ [⟨s'.now, r, reply⟩], ?_, fun log => ?_⟩
    · rw [hlog, List.append_assoc]
      rfl
    · rw [List.append_assoc]
      exact .asked hs (hends _)
  | stopped hs => exact ⟨[], rfl, fun log => .stopped hs⟩

/-- No time runs backwards in a stretch. -/
theorem Ends.now_le (h : prog.Ends F p out p') : p.shared.now ≤ p'.shared.now := by
  induction h with
  | done a p => exact Nat.le_refl _
  | asked hs _ ih => exact Nat.le_trans hs.now_le ih
  | stopped hs => exact hs.now_le

/-- What is answered in a stretch, the program asks for. -/
theorem Ends.answered (h : prog.Ends F p out p') (hasks : prog.Asks P) :
    ∀ x ∈ p'.log, x ∈ p.log ∨ P x.request := by
  induction h with
  | done a p => exact fun x hx => .inl hx
  | asked hs _ ih =>
    intro x hx
    rcases ih (hasks.2 _) x hx with hx | hx
    · rcases List.mem_cons.mp hx with rfl | hx
      · exact .inr hasks.1
      · exact .inl hx
    · exact .inr hx
  | stopped hs => exact fun x hx => .inl hx

/-- What overflows in a stretch is a call that the program may make. -/
theorem Ends.overflow {o : Overflow} (h : prog.Ends F p (.error o) p') (hasks : prog.Asks P) :
    (∃ (call : CoordCall) (store : CoordStore), P (.coord call) ∧
      store.perform p'.shared.now call = .error o) ∨ P (.stop o) := by
  generalize hout : (.error o : Checked α) = out at h
  induction h with
  | done a p => cases hout
  | asked hs _ ih => exact ih (hasks.2 _) hout
  | @stopped r next p o' s' hs =>
    cases hout
    rcases hs.overflow with ⟨call, rfl, hperform⟩ | rfl
    · exact .inl ⟨call, _, hasks.1, hperform⟩
    · exact .inr hasks.1

/-- The time before the first request of a stretch belongs to it. -/
theorem Ends.sooner {r : Request} {next : r.Reply → Program α} {s : Shared} {t : Moment}
    {log : Log} (h : (Program.ask r next).Ends F ⟨s.wait t, log⟩ out p') (ht : s.now ≤ t) :
    (Program.ask r next).Ends F ⟨s, log⟩ out p' := by
  cases h with
  | asked hs hrest => exact .asked (hs.sooner ht) hrest
  | stopped hs => exact .stopped (hs.sooner ht)

end Program

/-! ### What holds until an execution is over -/

variable {finish : Moment} {O : Overflow → Point → Prop}

/-- The terms of the shared services, for requests that are answered until a time. -/
def servingUntil (F : Faults) (finish : Moment) (O : Overflow → Point → Prop) : Terms Point :=
  fun r Q p =>
    (∀ reply s', p.shared.Serves F r (.ok reply) s' → s'.now ≤ finish →
      Q reply (p.asked s' r reply)) ∧
    ∀ o s', p.shared.Serves F r (.error o) s' → s'.now ≤ finish → O o (p.stopped s')

/-- Other requests leave the coordination store alone, and do not overflow. -/
theorem servingUntil_other {r : Request} {Q : r.Reply → Point → Prop}
    (hr : (∀ call, r ≠ .coord call) ∧ ∀ o, r ≠ .stop o)
    (hQ : ∀ reply s', p.shared.now ≤ s'.now → s'.now ≤ finish → s'.coord = p.shared.coord →
      Q reply (p.asked s' r reply)) : servingUntil F finish O r Q p := by
  refine ⟨fun reply s' hs hfinish => hQ reply s' hs.now_le hfinish (hs.coord_eq hr.1),
    fun o s' hs _ => ?_⟩
  exact absurd hs (Shared.Serves.ne_overflow hr)

/-- What a program ensures until a time holds where it ends, if it has ended by then. -/
theorem Program.Ends.of_ensures_until {prog : Program α} {out : Checked α} {Q : α → Point → Prop}
    (h : prog.Ends F p out p') (hfinish : p'.shared.now ≤ finish)
    (hprog : prog.ensures (servingUntil F finish O) Q p) :
    (∀ a, out = .ok a → Q a p') ∧ ∀ o, out = .error o → O o p' := by
  induction h with
  | done a p =>
    refine ⟨fun b hb => ?_, fun o ho => by cases ho⟩
    cases hb
    exact hprog
  -- No time runs backwards, and so the answer to this request came before the end.
  | asked hs hrest ih => exact ih hfinish (hprog.1 _ _ hs (Nat.le_trans hrest.now_le hfinish))
  | stopped hs =>
    refine ⟨fun a ha => (by cases ha), fun o ho => ?_⟩
    cases ho
    exact hprog.2 _ _ hs hfinish

end ExecutionControl
