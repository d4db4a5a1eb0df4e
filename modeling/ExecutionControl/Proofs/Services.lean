import ExecutionControl.Program
import ExecutionControl.Proofs.CoordinationCalls

/-! # The services that workers share

    The coordination store, the two durable tables, the clock and the source of identities,
    as one state that requests change. A request is answered at some time that is not
    before the last one; what the wall clock shows then, which identity is drawn and how
    long a wait takes is left open. A call to a store may also fail, if it is one of those
    that may: it then changes nothing.

    `Serves.coord` says what a call to the coordination store can do. `answer` is one way
    to answer every request, without delay and without a fault; it can be computed, and so
    can `answerUnless`, where chosen calls fail.
-/

namespace ExecutionControl

/-! ### Logs -/

/-- A request that was answered. -/
structure Exchange where
  /-- When it was answered. -/
  time : Moment
  request : Request
  reply : request.Reply

/-- An answered request for a slot in the set under a key. -/
def Exchange.AddsTo (key : String) (x : Exchange) : Prop :=
  ∃ t member score reply, x = ⟨t, .coord (.addMember key member score), reply⟩

/-- What was asked and answered, the latest first. -/
abbrev Log := List Exchange

/-- A request was answered with this reply at some time. -/
def Log.Has (log : Log) (r : Request) (reply : r.Reply) : Prop :=
  ∃ t, (⟨t, r, reply⟩ : Exchange) ∈ log

/-! ### Faults -/

/-- Which calls may fail, and with which errors. -/
structure Faults where
  coord : CoordCall → CoordError → Prop
  limits : LimitCall → StoreError → Prop
  files : FileCall → StoreError → Prop

namespace Faults

/-- Every call may fail with every error. -/
def any : Faults where
  coord _ _ := True
  limits _ _ := True
  files _ _ := True

/-- No call fails. -/
def never : Faults where
  coord _ _ := False
  limits _ _ := False
  files _ _ := False

/-- The coordination store never fails; the durable tables may. -/
def durable : Faults where
  coord _ _ := False
  limits _ _ := True
  files _ _ := True

/-- Whether a request may fail with a reply. -/
def Allows (F : Faults) : (r : Request) → r.Reply → Prop
  | .coord call, reply => ∃ e, F.coord call e ∧ reply = .error e
  | .limits call, reply => ∃ e, F.limits call e ∧ reply = .error e
  | .files call, reply => ∃ e, F.files call e ∧ reply = .error e
  | _, _ => False

theorem not_allows_never (r : Request) (reply : r.Reply) : ¬ Faults.never.Allows r reply := by
  intro h
  cases r with
  | coord | limits | files =>
    obtain ⟨_, hfails, -⟩ := h
    exact hfails
  | _ => exact h

end Faults

/-- How long it takes at least to answer a request. -/
def Request.span : Request → Nat
  | .sleep span => span.nanos
  | _ => 0

/-! ### State -/

/-- What all workers share. -/
structure Shared where
  coord : CoordStore := {}
  limits : LimitTable := {}
  files : FileTable := {}
  /-- The monotonic clock. -/
  now : Moment := 0
  /-- The identities that were drawn. -/
  drawn : List String := []

namespace Shared

/-- Let time pass. -/
def wait (s : Shared) (t : Moment) : Shared := { s with now := t }

/-- A request is carried out. -/
def Performs (s : Shared) : (r : Request) → Checked r.Reply → Shared → Prop
  | .coord call, reply, s' =>
    match s.coord.perform s.now call with
    | .ok (answer, coord) => reply = .ok answer ∧ s' = { s with coord }
    | .error e => reply = .error e ∧ s' = s
  | .limits call, reply, s' =>
    ∃ time, reply = .ok (s.limits.perform time call).1 ∧
      s' = { s with limits := (s.limits.perform time call).2 }
  | .files call, reply, s' =>
    ∃ time id, id ∉ s.drawn ∧ reply = .ok (s.files.perform id time call).1 ∧
      s' = { s with files := (s.files.perform id time call).2, drawn := id :: s.drawn }
  | .clock, reply, s' => reply = .ok s.now ∧ s' = s
  | .sleep _, reply, s' => reply = .ok () ∧ s' = s
  | .time, reply, s' => (∃ time, reply = .ok time) ∧ s' = s
  | .token, reply, s' =>
    ∃ id, id ∉ s.drawn ∧ reply = .ok id ∧ s' = { s with drawn := id :: s.drawn }
  | .report _, reply, s' => reply = .ok () ∧ s' = s
  | .stop overflow, reply, s' => reply = .error overflow ∧ s' = s

/-- A request is answered at some later time, a wait not before it is over: it is carried out,
    or it fails and changes nothing. -/
def Serves (F : Faults) (s : Shared) (r : Request) (reply : Checked r.Reply) (s' : Shared) :
    Prop :=
  ∃ t, s.now + r.span ≤ t ∧
    ((s.wait t).Performs r reply s' ∨ (∃ b, F.Allows r b ∧ reply = .ok b) ∧ s' = s.wait t)

variable {F : Faults} {s s' : Shared} {r : Request} {reply : Checked r.Reply}

/-! ### What a request can do -/

/-- What a request leaves as it is: every service but the one that is asked, and the
    identities that were drawn. -/
structure Frame (r : Request) (s s' : Shared) : Prop where
  coord : (∀ call, r ≠ .coord call) → s'.coord = s.coord
  limits : (∀ call, r ≠ .limits call) → s'.limits = s.limits
  files : (∀ call, r ≠ .files call) → s'.files = s.files
  drawn : s.drawn ⊆ s'.drawn

theorem Frame.refl : Frame r s s := ⟨fun _ => rfl, fun _ => rfl, fun _ => rfl, List.Subset.refl _⟩

theorem Performs.frame (h : s.Performs r reply s') : s'.now = s.now ∧ Frame r s s' := by
  cases r with
  | coord call =>
    simp only [Performs] at h
    split at h <;> obtain ⟨_, rfl⟩ := h
    · exact ⟨rfl, fun hr => absurd rfl (hr call), fun _ => rfl, fun _ => rfl, List.Subset.refl _⟩
    · exact ⟨rfl, .refl⟩
  | limits call =>
    obtain ⟨_, _, rfl⟩ := h
    exact ⟨rfl, fun _ => rfl, fun hr => absurd rfl (hr call), fun _ => rfl, List.Subset.refl _⟩
  | files call =>
    obtain ⟨_, _, _, _, rfl⟩ := h
    exact ⟨rfl, fun _ => rfl, fun _ => rfl, fun hr => absurd rfl (hr call),
      List.subset_cons_self _ _⟩
  | token =>
    obtain ⟨_, _, _, rfl⟩ := h
    exact ⟨rfl, fun _ => rfl, fun _ => rfl, fun _ => rfl, List.subset_cons_self _ _⟩
  | clock => obtain ⟨_, rfl⟩ := h; exact ⟨rfl, .refl⟩
  | sleep span => obtain ⟨_, rfl⟩ := h; exact ⟨rfl, .refl⟩
  | time => obtain ⟨_, rfl⟩ := h; exact ⟨rfl, .refl⟩
  | report event => obtain ⟨_, rfl⟩ := h; exact ⟨rfl, .refl⟩
  | stop overflow => obtain ⟨_, rfl⟩ := h; exact ⟨rfl, .refl⟩

theorem Serves.frame (h : s.Serves F r reply s') : Frame r s s' := by
  obtain ⟨t, -, h | ⟨-, rfl⟩⟩ := h
  · obtain ⟨-, hcoord, hlimits, hfiles, hdrawn⟩ := h.frame
    exact ⟨hcoord, hlimits, hfiles, hdrawn⟩
  · exact ⟨fun _ => rfl, fun _ => rfl, fun _ => rfl, List.Subset.refl _⟩

/-- A wait takes as long as it was asked to. -/
theorem Serves.span_le (h : s.Serves F r reply s') : s.now + r.span ≤ s'.now := by
  obtain ⟨t, ht, h | ⟨_, rfl⟩⟩ := h
  · rw [h.frame.1]
    exact ht
  · exact ht

/-- What services without trouble do, services may do that have some. -/
theorem Serves.of_never (h : s.Serves .never r reply s') : s.Serves F r reply s' := by
  obtain ⟨t, ht, hperforms | ⟨⟨b, hfails, -⟩, -⟩⟩ := h
  · exact ⟨t, ht, .inl hperforms⟩
  · exact absurd hfails (Faults.not_allows_never r b)

/-- Time never runs backwards. -/
theorem Serves.now_le (h : s.Serves F r reply s') : s.now ≤ s'.now :=
  Nat.le_trans (Nat.le_add_right _ _) h.span_le

/-- The clock shows the time at which it is read. -/
theorem Serves.clock {t : Moment} (h : s.Serves F .clock (.ok t) s') : t = s'.now := by
  obtain ⟨t', -, ⟨hreply, rfl⟩ | ⟨⟨b, hb, -⟩, -⟩⟩ := h
  · exact Except.ok.inj hreply
  · exact hb.elim

/-- What becomes of a call to the coordination store: it is carried out at the time of its
    answer, it fails, or it overflows. -/
theorem Serves.coord {call : CoordCall} {reply : Checked (Except CoordError call.Result)}
    (h : s.Serves F (.coord call) reply s') :
    s'.limits = s.limits ∧ s'.drawn = s.drawn ∧
      ((∃ answer, reply = .ok answer ∧
          s.coord.perform s'.now call = .ok (answer, s'.coord)) ∨
        (∃ e, F.coord call e ∧ reply = .ok (.error e)) ∧ s'.coord = s.coord ∨
        (∃ o, reply = .error o ∧ s.coord.perform s'.now call = .error o) ∧
          s'.coord = s.coord) := by
  obtain ⟨t, ht, h | ⟨⟨b, ⟨e, he, rfl⟩, rfl⟩, rfl⟩⟩ := h
  · simp only [Performs, wait] at h
    split at h
    · rename_i answer coord hp
      obtain ⟨rfl, rfl⟩ := h
      exact ⟨rfl, rfl, Or.inl ⟨answer, rfl, hp⟩⟩
    · rename_i o hp
      obtain ⟨rfl, rfl⟩ := h
      exact ⟨rfl, rfl, Or.inr (Or.inr ⟨⟨o, rfl, hp⟩, rfl⟩)⟩
  · exact ⟨rfl, rfl, Or.inr (Or.inl ⟨⟨e, he, rfl⟩, rfl⟩)⟩

/-- A call to the coordination store that is answered is carried out, or it fails. -/
theorem Serves.answered {call : CoordCall} {reply : Except CoordError call.Result}
    (h : s.Serves F (.coord call) (.ok reply) s') :
    s.coord.perform s'.now call = .ok (reply, s'.coord) ∨
      (∃ e, F.coord call e ∧ reply = .error e) ∧ s'.coord = s.coord := by
  obtain ⟨_, _, ⟨answer, hreply, hp⟩ | ⟨⟨e, he, hreply⟩, hcoord⟩ | ⟨⟨o, hreply, _⟩, _⟩⟩ := h.coord
  · cases hreply
    exact Or.inl hp
  · cases hreply
    exact Or.inr ⟨⟨e, he, rfl⟩, hcoord⟩
  · cases hreply

/-- Only calls to the coordination store overflow, and what is asked to. -/
theorem Serves.overflow {o : Overflow} (h : s.Serves F r (.error o) s') :
    (∃ call, r = .coord call ∧ s.coord.perform s'.now call = .error o) ∨ r = .stop o := by
  cases r with
  | coord call =>
    obtain ⟨_, _, ⟨_, hreply, _⟩ | ⟨⟨_, _, hreply⟩, _⟩ | ⟨⟨o', hreply, hp⟩, _⟩⟩ := h.coord
    · cases hreply
    · cases hreply
    · cases hreply
      exact .inl ⟨call, rfl, hp⟩
  | stop o' =>
    obtain ⟨_, _, ⟨hreply, _⟩ | ⟨⟨_, hb, _⟩, _⟩⟩ := h
    · cases hreply
      exact .inr rfl
    · exact hb.elim
  -- Everything else is carried out or fails, and has a reply either way.
  | limits call => obtain ⟨_, _, ⟨_, hreply, _⟩ | ⟨⟨_, _, hreply⟩, _⟩⟩ := h <;> cases hreply
  | files call =>
    obtain ⟨_, _, ⟨_, _, _, hreply, _⟩ | ⟨⟨_, _, hreply⟩, _⟩⟩ := h <;> cases hreply
  | clock => obtain ⟨_, _, ⟨hreply, _⟩ | ⟨⟨_, _, hreply⟩, _⟩⟩ := h <;> cases hreply
  | sleep span => obtain ⟨_, _, ⟨hreply, _⟩ | ⟨⟨_, _, hreply⟩, _⟩⟩ := h <;> cases hreply
  | time => obtain ⟨_, _, ⟨⟨_, hreply⟩, _⟩ | ⟨⟨_, _, hreply⟩, _⟩⟩ := h <;> cases hreply
  | token => obtain ⟨_, _, ⟨_, _, hreply, _⟩ | ⟨⟨_, _, hreply⟩, _⟩⟩ := h <;> cases hreply
  | report event => obtain ⟨_, _, ⟨hreply, _⟩ | ⟨⟨_, _, hreply⟩, _⟩⟩ := h <;> cases hreply

theorem Serves.coord_error {o : Overflow} {call : CoordCall}
    (h : s.Serves F (.coord call) (.error o) s') : s.coord.perform s'.now call = .error o := by
  rcases h.overflow with ⟨call', hcall, hp⟩ | hstop
  · cases hcall
    exact hp
  · cases hstop

theorem Serves.ne_overflow {o : Overflow} (hr : (∀ call, r ≠ .coord call) ∧ ∀ o, r ≠ .stop o) :
    ¬ s.Serves F r (.error o) s' := by
  intro h
  rcases h.overflow with ⟨call, hcall, _⟩ | hstop
  · exact hr.1 call hcall
  · exact hr.2 o hstop

/-- A request that overflows changes nothing but the time. -/
theorem Serves.stopped {o : Overflow} (h : s.Serves F r (.error o) s') :
    s'.coord = s.coord ∧ s'.drawn = s.drawn := by
  rcases h.overflow with ⟨call, rfl, _⟩ | rfl
  · obtain ⟨_, hdrawn, ⟨_, hreply, _⟩ | ⟨_, hcoord⟩ | ⟨_, hcoord⟩⟩ := h.coord
    · cases hreply
    · exact ⟨hcoord, hdrawn⟩
    · exact ⟨hcoord, hdrawn⟩
  · obtain ⟨_, _, ⟨_, rfl⟩ | ⟨_, rfl⟩⟩ := h <;> exact ⟨rfl, rfl⟩

/-- Only calls to the coordination store change it. -/
theorem Serves.coord_eq (h : s.Serves F r reply s') (hr : ∀ call, r ≠ .coord call) :
    s'.coord = s.coord :=
  h.frame.coord hr

/-- Only calls to the table of file records change it. -/
theorem Serves.files_eq (h : s.Serves F r reply s') (hr : ∀ call, r ≠ .files call) :
    s'.files = s.files :=
  h.frame.files hr

/-- An identity stays drawn. -/
theorem Serves.drawn_subset (h : s.Serves F r reply s') : s.drawn ⊆ s'.drawn := h.frame.drawn

theorem Serves.stopped_files {o : Overflow} (h : s.Serves F r (.error o) s') :
    s'.files = s.files := by
  rcases h.overflow with ⟨call, rfl, _⟩ | rfl <;> exact h.files_eq nofun

/-- No request changes whether the coordination store can be reached. -/
theorem Serves.available (h : s.Serves F r reply s') :
    s'.coord.available = s.coord.available := by
  by_cases hr : ∃ call, r = .coord call
  · obtain ⟨call, rfl⟩ := hr
    obtain ⟨-, -, ⟨_, -, hp⟩ | ⟨-, hcoord⟩ | ⟨-, hcoord⟩⟩ := h.coord
    · exact CoordStore.perform_available hp
    · rw [hcoord]
    · rw [hcoord]
  · rw [h.coord_eq fun call heq => hr ⟨call, heq⟩]

/-- A token that is drawn was not drawn before. -/
theorem Serves.token {token : String} (h : s.Serves F .token (.ok token) s') :
    token ∉ s.drawn ∧ s'.drawn = token :: s.drawn := by
  obtain ⟨t, ht, ⟨id, hid, hreply, rfl⟩ | ⟨⟨b, hb, _⟩, _⟩⟩ := h
  · cases hreply
    exact ⟨hid, rfl⟩
  · exact hb.elim

/-! ### Every request is answered -/

/-- A length that no identity reaches that was drawn. -/
def freshLength : List String → Nat
  | [] => 0
  | id :: drawn => max (id.length + 1) (freshLength drawn)

/-- An identity that is longer than all that were drawn. -/
def freshId (drawn : List String) : String :=
  String.ofList (List.replicate (freshLength drawn) '0')

theorem length_lt_freshLength {id : String} {drawn : List String} (h : id ∈ drawn) :
    id.length < freshLength drawn := by
  induction drawn with
  | nil => cases h
  | cons first drawn ih =>
    simp only [freshLength]
    rcases List.mem_cons.mp h with rfl | h
    · omega
    · have := ih h
      omega

theorem freshId_notMem (drawn : List String) : freshId drawn ∉ drawn := by
  intro hmem
  have hlt := length_lt_freshLength hmem
  simp only [freshId, String.length_ofList, List.length_replicate] at hlt
  omega

/-- Answer a request without delay, except for the wait that it asks for. -/
def answer (s : Shared) : (r : Request) → Checked r.Reply × Shared
  | .coord call =>
    match s.coord.perform s.now call with
    | .ok (reply, coord) => (.ok reply, { s with coord })
    | .error o => (.error o, s)
  | .limits call =>
    let (reply, limits) := s.limits.perform default call
    (.ok reply, { s with limits })
  | .files call =>
    let id := freshId s.drawn
    let (reply, files) := s.files.perform id default call
    (.ok reply, { s with files, drawn := id :: s.drawn })
  | .clock => (.ok s.now, s)
  | .sleep span => (.ok (), s.wait (s.now + span.nanos))
  | .time => (.ok default, s)
  | .token =>
    let id := freshId s.drawn
    (.ok id, { s with drawn := id :: s.drawn })
  | .report _ => (.ok (), s)
  | .stop overflow => (.error overflow, s)

theorem serves_answer (F : Faults) (s : Shared) (r : Request) :
    s.Serves F r (s.answer r).1 (s.answer r).2 := by
  cases r with
  -- A wait is answered when it is over, everything else at once.
  | sleep span => exact ⟨s.now + span.nanos, Nat.le_refl _, Or.inl ⟨rfl, rfl⟩⟩
  | coord call =>
    refine ⟨s.now, Nat.le_refl _, Or.inl ?_⟩
    simp only [answer, Performs, wait]
    cases s.coord.perform s.now call <;> exact ⟨rfl, rfl⟩
  | limits call => exact ⟨s.now, Nat.le_refl _, Or.inl ⟨default, rfl, rfl⟩⟩
  | files call =>
    exact ⟨s.now, Nat.le_refl _, Or.inl ⟨default, _, freshId_notMem s.drawn, rfl, rfl⟩⟩
  | clock => exact ⟨s.now, Nat.le_refl _, Or.inl ⟨rfl, rfl⟩⟩
  | time => exact ⟨s.now, Nat.le_refl _, Or.inl ⟨⟨default, rfl⟩, rfl⟩⟩
  | token => exact ⟨s.now, Nat.le_refl _, Or.inl ⟨_, freshId_notMem s.drawn, rfl, rfl⟩⟩
  | report event => exact ⟨s.now, Nat.le_refl _, Or.inl ⟨rfl, rfl⟩⟩
  | stop overflow => exact ⟨s.now, Nat.le_refl _, Or.inl ⟨rfl, rfl⟩⟩

/-- Answer a request in the same way, where the calls that `fails` picks out fail. -/
def answerUnless (fails : CoordCall → Option CoordError) (s : Shared) :
    (r : Request) → Checked r.Reply × Shared
  | .coord call =>
    match fails call with
    | some e => (.ok (.error e), s)
    | none => s.answer (.coord call)
  | r => s.answer r

theorem serves_answerUnless {fails : CoordCall → Option CoordError}
    (hfails : ∀ call e, fails call = some e → F.coord call e) (s : Shared) (r : Request) :
    s.Serves F r (s.answerUnless fails r).1 (s.answerUnless fails r).2 := by
  cases r with
  | coord call =>
    cases hcall : fails call with
    | none =>
      simp only [answerUnless, hcall]
      exact serves_answer F s (.coord call)
    | some e =>
      simp only [answerUnless, hcall]
      exact ⟨s.now, Nat.le_refl _, Or.inr ⟨⟨_, ⟨e, hfails call e hcall, rfl⟩, rfl⟩, rfl⟩⟩
  | _ => exact serves_answer F s _

end Shared

end ExecutionControl
