import ExecutionControl.Lifecycle
import ExecutionControl.Proofs.Admission.Operations
import ExecutionControl.Proofs.Admission.Tenants
import ExecutionControl.Proofs.Stretches
import ExecutionControl.Proofs.Tracking.Isolation
import Mathlib.Data.List.Basic

/-! # Tracking does not reach the slots

    An execution is admitted and then tracked, and at its end it is tracked, compared with its
    durable records and released. Whatever goes wrong with tracking and with the durable
    records, its start answers and takes slots as its admission does, and its end answers and
    gives slots back as its release does (`slots_beyond_tracking`).

    Tracking writes under one key, which admission and release do not read
    (`Request.Tracks.spares`), so that a release after it can be replayed without it
    (`alone_of_elsewhere`). The comparison writes nothing at all (`Request.Compares`).
-/

namespace ExecutionControl

open Program

variable {α : Type} {F : Faults} {s s' q : Shared} {r : Request} {key k : String} {ttl : Duration}

/-! ### What tracking asks for -/

/-- The requests by which a record is kept. They write under its key only, and set deadlines
    only this time to live ahead. -/
def Request.Tracks (key : String) (ttl : Duration) : Request → Prop
  | .coord (.setFields k _) => k = key
  | .coord (.setNewField k ..) => k = key
  | .coord (.getFields k) => k = key
  | .coord (.expire k span) => k = key ∧ span = ttl
  | .coord _ => False
  | .stop _ => False
  | _ => True

/-- The requests by which live counters are compared with durable records. -/
def Request.Compares (key : String) : Request → Prop
  | .coord (.getFields k) => k = key
  | .coord _ => False
  | .files (.countByStatus _) => True
  | .files _ => False
  | .limits _ => False
  | .stop _ => False
  | _ => True

theorem Request.Tracks.spares (h : r.Tracks key ttl) (hk : k ≠ key) : r.Spares k := by
  rintro call rfl
  cases call with
  | setFields | setNewField | getFields => exact ⟨fun heq => hk (heq.trans h), by simp⟩
  | expire => exact ⟨fun heq => hk (heq.trans h.1), by simp⟩
  | _ => exact h.elim

/-- Of all that tracking asks for, only a new deadline can overflow. -/
theorem Request.Tracks.overflow_of_ends {prog : Program α} {p p' : Point} {o : Overflow}
    (h : prog.Ends F p (.error o) p') (hasks : prog.Asks (Request.Tracks key ttl)) :
    o = .deadline ∧ Moment.bound ≤ p'.shared.now + ttl.nanos := by
  rcases h.overflow hasks with ⟨call, store, hcall, ho⟩ | hstop
  · cases call with
    | setFields | setNewField | getFields => cases ho
    | expire k span =>
      obtain ⟨-, rfl⟩ := hcall
      exact CoordStore.perform_expire_error ho
    | _ => exact hcall.elim
  · exact hstop.elim

theorem Request.Compares.tracks (h : r.Compares key) (ttl : Duration) : r.Tracks key ttl := by
  cases r with
  | coord call =>
    cases call with
    | getFields k => exact h
    | _ => exact h.elim
  | stop o => exact h.elim
  | _ => trivial

theorem Tracker.Looks.compares (h : Tracker.Looks key r) : r.Compares key := by
  cases r with
  | coord call =>
    cases h
    rfl
  | time => trivial
  | report event => trivial
  | _ => exact h.elim

/-- A comparison changes none of the stores, and does not overflow. -/
theorem Request.Compares.serves {reply : Checked r.Reply} (h : r.Compares key)
    (hs : s.Serves F r reply s') :
    s'.coord = s.coord ∧ s'.limits = s.limits ∧ s'.files = s.files := by
  have hframe := hs.frame
  cases r with
  | coord call =>
    refine ⟨?_, hframe.limits (by simp), hframe.files (by simp)⟩
    cases call with
    | getFields k =>
      obtain ⟨-, -, ⟨answer, -, hp⟩ | ⟨-, hcoord⟩ | ⟨-, hcoord⟩⟩ := hs.coord
      · exact CoordStore.perform_getFields hp
      · exact hcoord
      · exact hcoord
    | _ => exact h.elim
  | files call =>
    refine ⟨hframe.coord (by simp), hframe.limits (by simp), ?_⟩
    cases call with
    | countByStatus id =>
      obtain ⟨t, -, ⟨_, _, -, -, rfl⟩ | ⟨-, rfl⟩⟩ := hs
      · rfl
      · rfl
    | _ => exact h.elim
  | limits call => exact h.elim
  | stop o => exact h.elim
  | _ => exact ⟨hframe.coord (by simp), hframe.limits (by simp), hframe.files (by simp)⟩

namespace Tracker

theorem asks_create (t : Tracker) (workflowId executionId : String) (totalFiles : Nat) :
    (t.create workflowId executionId totalFiles).Asks
      (Request.Tracks (Key.execution workflowId executionId) t.config.activeTtl) := by
  refine Asks.map ?_
  refine Asks.run_bind (Asks.run_lift (asks_request (by trivial))) fun now => ?_
  refine Asks.run_bind (asks_run_call (by rfl)) fun _ => ?_
  refine Asks.run_bind (asks_run_call (by rfl)) fun _ => ?_
  refine Asks.run_bind (asks_run_call (by rfl)) fun _ => ?_
  refine Asks.run_bind (asks_run_call (by rfl)) fun _ => ?_
  refine Asks.run_bind (asks_run_call (by rfl)) fun _ => ?_
  exact Asks.run_bind (asks_run_call ⟨rfl, rfl⟩) fun _ => asks_run_pure _

theorem asks_updateStatus (t : Tracker) (workflowId executionId : String)
    (status : ExecutionStatus) :
    (t.updateStatus workflowId executionId (.canonical status)).Asks
      (Request.Tracks (Key.execution workflowId executionId) (t.config.ttl status)) := by
  refine Asks.map (Asks.run_bind ?_ fun _ => asks_run_pure _)
  refine Asks.run_bind (Asks.run_lift (asks_request (by trivial))) fun now => ?_
  refine Asks.run_bind (asks_run_call (by rfl)) fun _ => ?_
  exact Asks.run_bind (asks_run_call ⟨rfl, rfl⟩) fun _ => asks_run_pure _

end Tracker

namespace Lifecycle

variable (l : Lifecycle) (c : ExecutionContext)

theorem asks_reconcile :
    (reconcile c).Asks (Request.Compares (Key.execution c.workflowId c.executionId)) := by
  unfold reconcile
  refine (asks_request (by trivial)).bind fun counts => ?_
  cases counts with
  | error e => exact asks_pure ()
  | ok counts =>
    refine ((Tracker.get_looks c.workflowId c.executionId).imp fun _ h => h.compares).bind
      fun found => ?_
    cases found with
    | missing | unknown => exact asks_pure ()
    | found live =>
      have hlast : (if 0 < unfinished counts then
          Program.report (.filesStillInFlight (unfinished counts)) else pure ()).Asks
          (Request.Compares (Key.execution c.workflowId c.executionId)) := by
        split
        · exact asks_request (by trivial)
        · exact asks_pure ()
      show Program.Asks _ (if _ then Program.report _ >>= fun _ => _ else _)
      split
      · exact (asks_request (by trivial)).bind fun _ => hlast
      · exact hlast

end Lifecycle

/-! ### States that differ under one key -/

/-- Two states in which the same is found under every key but one. -/
structure SameElsewhere (key : String) (s q : Shared) : Prop where
  available : q.coord.available = s.coord.available
  entries : ∀ k, k ≠ key → q.coord.entries[k]? = s.coord.entries[k]?

namespace SameElsewhere

theorem refl (key : String) (s : Shared) : SameElsewhere key s s := ⟨rfl, fun _ _ => rfl⟩

theorem symm (h : SameElsewhere key s q) : SameElsewhere key q s :=
  ⟨h.available.symm, fun k hk => (h.entries k hk).symm⟩

/-- The key of a record is not one of slots. -/
theorem slots {workflowId executionId : String} (now : Moment)
    (h : SameElsewhere (Key.execution workflowId executionId) s q) (hk : Key.IsSlots k) :
    q.coord.slots now k = s.coord.slots now k :=
  CoordStore.slots_congr (h.entries k (hk.ne_execution workflowId executionId))

/-- What spares every other key keeps them the same. -/
theorem serves {reply : Checked r.Reply} (h : SameElsewhere key q s)
    (hr : ∀ k, k ≠ key → r.Spares k) (hs : s.Serves F r reply s') : SameElsewhere key q s' where
  available := hs.available.trans h.available
  entries k hk := (hs.entries_of_spares (hr k hk)).trans (h.entries k hk)

/-- A program that only tracks changes nothing elsewhere. -/
theorem of_tracks {prog : Program α} {out : Checked α} {p p' : Point} (h : prog.Ends F p out p')
    (hasks : prog.Asks (Request.Tracks key ttl)) : SameElsewhere key p.shared p'.shared :=
  h.keeps hasks (fun _ _ _ _ hsame hr hs => hsame.serves (fun _ hk => hr.spares hk) hs) (refl key _)

end SameElsewhere

/-! ### Releases alone -/

/-- The requests of a release, whose keys are not this one. -/
def Request.Releases (key : String) : Request → Prop
  | .coord (.removeMember k _) => k ≠ key
  | .report _ => True
  | _ => False

/-- A member is removed alike from what is alike. -/
theorem CoordStore.removeMember_congr {s q : CoordStore} (now : Moment) (member : String)
    (havailable : q.available = s.available) (hentry : q.entries[k]? = s.entries[k]?) :
    (q.removeMember now k member).1 = (s.removeMember now k member).1 ∧
      (q.removeMember now k member).2.entries[k]? =
        (s.removeMember now k member).2.entries[k]? := by
  have hmembers : q.members now k = s.members now k := by
    simp only [members, datum?, live?_congr hentry]
  simp only [removeMember, whenAvailable, unreachable, havailable, hmembers]
  split
  · split
    · exact ⟨rfl, hentry⟩
    · refine ⟨rfl, ?_⟩
      simp only [putMembers, deadline?_congr hentry]
      split <;> simp
  · exact ⟨rfl, hentry⟩

/-- What one state does for a release, the other can do. -/
theorem SameElsewhere.releases {reply : Checked r.Reply} (h : SameElsewhere key s q)
    (hnow : q.now = s.now) (hr : r.Releases key) (hs : s.Serves F r reply s') :
    ∃ q', q.Serves F r reply q' ∧ q'.now = s'.now ∧ SameElsewhere key s' q' := by
  obtain ⟨t, ht, hs⟩ := hs
  have hlater : q.now + r.span ≤ t := by
    rw [hnow]
    exact ht
  rcases hs with hperforms | ⟨hfails, rfl⟩
  · cases r with
    | coord call =>
      cases call with
      | removeMember k member =>
        obtain ⟨rfl, rfl⟩ := hperforms
        obtain ⟨hanswer, hentry⟩ := CoordStore.removeMember_congr t member h.available
          (h.entries k hr)
        -- A removal looks at the set alone, and leaves all other keys as they are.
        have hs : s.coord.perform t (.removeMember k member) =
            .ok (s.coord.removeMember t k member) := rfl
        have hq : q.coord.perform t (.removeMember k member) =
            .ok (q.coord.removeMember t k member) := rfl
        refine ⟨{ q.wait t with coord := (q.coord.removeMember t k member).2 },
          ⟨t, hlater, .inl ⟨congrArg Except.ok hanswer.symm, rfl⟩⟩, rfl, ?_, fun k' hk' => ?_⟩
        · exact (CoordStore.perform_available hq).trans
            (h.available.trans (CoordStore.perform_available hs).symm)
        · by_cases heq : k' = k
          · subst heq
            exact hentry
          · exact (CoordStore.perform_entries_of_ne hq heq (by simp)).trans
              ((h.entries k' hk').trans (CoordStore.perform_entries_of_ne hs heq (by simp)).symm)
      | _ => exact hr.elim
    | report event =>
      obtain ⟨rfl, rfl⟩ := hperforms
      exact ⟨q.wait t, ⟨t, hlater, .inl ⟨rfl, rfl⟩⟩, rfl, h.available, h.entries⟩
    | _ => exact hr.elim
  · exact ⟨q.wait t, ⟨t, hlater, .inr ⟨hfails, rfl⟩⟩, rfl, h.available, h.entries⟩

namespace Admission

variable {out : Checked Bool} {p p' : Point} {orgId executionId : String}

theorem asks_release_releases (workflowId id : String) :
    (release orgId executionId).Asks (Request.Releases (Key.execution workflowId id)) := by
  have hslots : ∀ k, Key.IsSlots k → k ≠ Key.execution workflowId id :=
    fun k hk => hk.ne_execution workflowId id
  unfold release
  refine (asks_coord (hslots _ (Key.isSlots_orgSlots orgId))).bind fun org => ?_
  refine (asks_coord (hslots _ Key.isSlots_globalSlots)).bind fun all => ?_
  match org, all with
  | .ok inOrg, .ok inAll => exact asks_pure _
  | .error e, _ => exact (asks_request (by trivial)).bind fun _ => asks_pure _
  | .ok _, .error e => exact (asks_request (by trivial)).bind fun _ => asks_pure _

/-- A release always gives an answer. -/
theorem release_answers (h : (release orgId executionId).Ends F p out p') :
    ∃ released, out = .ok released := by
  cases out with
  | ok released => exact ⟨released, rfl⟩
  | error o =>
    rcases h.overflow (asks_release_releases "" "") with ⟨call, store, hcall, hoverflow⟩ | hstop
    · cases call with
      | removeMember => cases hoverflow
      | _ => exact hcall.elim
    · exact hstop.elim

/-- A release that gives an answer has tried to remove both slots, whatever came of the first
    try. -/
theorem release_tries_both {released : Bool}
    (h : (release orgId executionId).Ends F ⟨s, []⟩ (.ok released) p) :
    (∃ reply, p.log.Has (.coord (.removeMember (Key.orgSlots orgId) executionId)) reply) ∧
      ∃ reply, p.log.Has (.coord (.removeMember Key.globalSlots executionId)) reply := by
  replace h : Program.Ends F (.ask _ _) _ _ _ := h
  cases h with
  | @asked _ _ _ _ org s₁ _ hs hrest =>
    replace hrest : Program.Ends F (.ask _ _) _ _ _ := hrest
    cases hrest with
    | @asked _ _ _ _ all s₂ _ hs' hrest =>
      obtain ⟨added, hlog, -⟩ := hrest.alone
      rw [hlog]
      exact ⟨⟨org, s₁.now, by simp [Point.asked]⟩, ⟨all, s₂.now, by simp [Point.asked]⟩⟩

/-- A release can be replayed on an earlier state that differs under the key of a record
    only. -/
theorem release_alone {workflowId id : String}
    (h : (release orgId executionId).Ends F p out p')
    (hsame : SameElsewhere (Key.execution workflowId id) s p.shared)
    (hnow : s.now ≤ p.shared.now) :
    ∃ q, (release orgId executionId).Ends F ⟨s, []⟩ out q ∧ p'.log = q.log ++ p.log ∧
      q.shared.now = p'.shared.now ∧
      SameElsewhere (Key.execution workflowId id) q.shared p'.shared := by
  obtain ⟨added, hlog, halone⟩ := h.alone
  -- The replay starts when the release did, and what it asks for is answered at the same times.
  obtain ⟨q, hq, hqnow, hqsame⟩ := (halone []).simulate
    (R := fun s q => q.now = s.now ∧ SameElsewhere (Key.execution workflowId id) s q)
    (q := s.wait p.shared.now) (asks_release_releases workflowId id)
    ⟨rfl, hsame.symm.available, hsame.symm.entries⟩
    fun s q r reply s' hR hr hs => by
      obtain ⟨q', hserves, hnow', hsame'⟩ := hR.2.releases hR.1 hr hs
      exact ⟨q', hserves, hnow', hnow', hsame'⟩
  exact ⟨⟨q, added ++ []⟩, Program.Ends.sooner hq hnow, by simpa using hlog, hqnow, hqsame.symm⟩

end Admission

namespace Lifecycle

variable {l : Lifecycle} {c : ExecutionContext} {how : TerminalStatus} {totalFiles : Nat}
  {p : Point}

/-! ### The parts of a start and of an end -/

/-- What an execution does at its start after its admission. -/
def track (l : Lifecycle) (c : ExecutionContext) (totalFiles : Nat) (decision : Decision) :
    Program Unit := do
  if decision.isAdmitted then
    match ← l.tracker.create c.workflowId c.executionId totalFiles with
    | .ok () => pure ()
    | .error e => Program.report (.trackingNotStarted c.orgId c.executionId e)

/-- What an execution does at its end before its release. -/
def settle (l : Lifecycle) (c : ExecutionContext) (how : TerminalStatus) : Program Unit := do
  match ← l.tracker.updateStatus c.workflowId c.executionId (.canonical how.status) with
  | .ok _ => pure ()
  | .error e => Program.report (.finalStatusNotTracked e)
  reconcile c

theorem start_eq : l.start c totalFiles = (do
    match ← l.admission.tryAdmit c with
    | .error e => return .error e
    | .ok decision => do
      l.track c totalFiles decision
      return .ok decision) := by
  unfold start track
  congr 1
  funext outcome
  cases outcome with
  | error e => rfl
  | ok decision =>
    cases hadmitted : decision.isAdmitted with
    | false => simp [hadmitted]
    | true =>
      simp only [hadmitted, if_true, LawfulMonad.bind_assoc]
      congr 1
      funext created
      cases created <;> simp

theorem finish_eq : l.finish c how = (do
    l.settle c how
    Admission.release c.orgId c.executionId) := by
  unfold finish settle
  rw [LawfulMonad.bind_assoc]
  congr 1
  funext updated
  cases updated <;> simp

theorem asks_track (l : Lifecycle) (c : ExecutionContext) (totalFiles : Nat)
    (decision : Decision) : (l.track c totalFiles decision).Asks
      (Request.Tracks (Key.execution c.workflowId c.executionId) l.tracker.config.activeTtl) := by
  unfold track
  split
  · refine (l.tracker.asks_create c.workflowId c.executionId totalFiles).bind fun created => ?_
    cases created with
    | ok u => exact asks_pure ()
    | error e => exact asks_request (by trivial)
  · exact asks_pure ()

theorem asks_settle (l : Lifecycle) (c : ExecutionContext) (how : TerminalStatus) :
    (l.settle c how).Asks (Request.Tracks (Key.execution c.workflowId c.executionId)
      (l.tracker.config.ttl how.status)) := by
  have hreconcile := (asks_reconcile c).imp fun _ h => h.tracks (l.tracker.config.ttl how.status)
  unfold settle
  refine (l.tracker.asks_updateStatus c.workflowId c.executionId how.status).bind fun updated => ?_
  cases updated with
  | ok status => exact (asks_pure ()).bind fun _ => hreconcile
  | error e => exact (asks_request (by trivial)).bind fun _ => hreconcile

/-! ### Starts and ends beside admissions and releases -/

/-- An end of an execution from `s` to `p` answers and leaves slots as its release alone would
    have done from `s`, asking for the same and answered alike at the same times. Both slots
    were tried. -/
def EndsAsReleased (c : ExecutionContext) (F : Faults) (s : Shared) (out : Checked Bool)
    (p : Point) : Prop :=
  ∃ (released : Bool) (q : Point) (before : Log), out = .ok released ∧
    (Admission.release c.orgId c.executionId).Ends F ⟨s, []⟩ (.ok released) q ∧
    p.log = q.log ++ before ∧ q.shared.now = p.shared.now ∧
    SameElsewhere (Key.execution c.workflowId c.executionId) q.shared p.shared ∧
    (∀ key now, Key.IsSlots key → p.shared.coord.slots now key = q.shared.coord.slots now key) ∧
    (∃ reply, p.log.Has (.coord (.removeMember (Key.orgSlots c.orgId) c.executionId)) reply) ∧
    ∃ reply, p.log.Has (.coord (.removeMember Key.globalSlots c.executionId)) reply

/-- A start of an execution from `s` to `p` decides and takes slots as its admission alone,
    which it goes through with the same requests and replies, the same time and the same token.
    It asks for nothing more unless the execution is admitted, and nothing that admission asks
    for is about the record. -/
def StartsAsAdmitted (l : Lifecycle) (c : ExecutionContext) (F : Faults) (s : Shared)
    (decided : Checked (Except AdmissionError Decision)) (p : Point) : Prop :=
  ∃ (q : Point) (after : Log), (l.admission.tryAdmit c).Ends F ⟨s, []⟩ decided q ∧
    p.log = after ++ q.log ∧
    (∀ x ∈ q.log, x.request.Spares (Key.execution c.workflowId c.executionId)) ∧
    q.shared.coord.entries[Key.execution c.workflowId c.executionId]? =
      s.coord.entries[Key.execution c.workflowId c.executionId]? ∧
    SameElsewhere (Key.execution c.workflowId c.executionId) q.shared p.shared ∧
    (∀ key now, Key.IsSlots key → p.shared.coord.slots now key = q.shared.coord.slots now key) ∧
    ((∀ decision, decided = .ok (.ok decision) → decision.isAdmitted = false) → p = q)

/-- An end answers as its release, or the time to live of its last status reaches beyond the
    clock and nothing was released. -/
theorem finish_as_released {out : Checked Bool} (h : (l.finish c how).Ends F ⟨s, []⟩ out p) :
    EndsAsReleased c F s out p ∨
      out = .error .deadline ∧
        Moment.bound ≤ p.shared.now + (l.tracker.config.ttl how.status).nanos ∧
        SameElsewhere (Key.execution c.workflowId c.executionId) s p.shared := by
  have hasks := l.asks_settle c how
  rw [finish_eq] at h
  rcases h.bind_cases with ⟨_, m, hsettle, hrelease⟩ | ⟨o, rfl, hsettle⟩
  · left
    have hsame := SameElsewhere.of_tracks hsettle hasks
    obtain ⟨released, rfl⟩ := Admission.release_answers hrelease
    obtain ⟨q, hq, hlog, hnow, hsame⟩ := Admission.release_alone hrelease hsame hsettle.now_le
    obtain ⟨⟨org, t, horg⟩, all, t', hall⟩ := Admission.release_tries_both hq
    refine ⟨released, q, m.log, rfl, hq, hlog, hnow, hsame,
      fun key now hkey => hsame.slots now hkey, ⟨org, t, ?_⟩, all, t', ?_⟩
    · rw [hlog]
      exact List.mem_append_left _ horg
    · rw [hlog]
      exact List.mem_append_left _ hall
  · right
    obtain ⟨rfl, hbound⟩ := Request.Tracks.overflow_of_ends hsettle hasks
    exact ⟨rfl, hbound, .of_tracks hsettle hasks⟩

/-- A start decides as its admission, or the time to live of a record that it makes reaches
    beyond the clock; either way it takes slots as its admission. -/
theorem start_as_admitted {out : Checked (Except AdmissionError Decision)}
    (h : (l.start c totalFiles).Ends F ⟨s, []⟩ out p) :
    StartsAsAdmitted l c F s out p ∨
      out = .error .deadline ∧
        Moment.bound ≤ p.shared.now + l.tracker.config.activeTtl.nanos ∧
        ∃ decision, decision.isAdmitted = true ∧
          StartsAsAdmitted l c F s (.ok (.ok decision)) p := by
  have hasks : (l.admission.tryAdmit c).Asks fun r =>
      r.Spares (Key.execution c.workflowId c.executionId) :=
    (l.admission.asks_tryAdmit c).imp fun _ h =>
      h.spares (by simp) (by simp) (by simp) (by simp)
  have hspares : ∀ {decided q}, (l.admission.tryAdmit c).Ends F ⟨s, []⟩ decided q →
      (∀ x ∈ q.log, x.request.Spares (Key.execution c.workflowId c.executionId)) ∧
        q.shared.coord.entries[Key.execution c.workflowId c.executionId]? =
          s.coord.entries[Key.execution c.workflowId c.executionId]? := by
    intro decided q hends
    refine ⟨fun x hx => ?_, hends.keeps (I := fun q =>
      q.coord.entries[Key.execution c.workflowId c.executionId]? =
        s.coord.entries[Key.execution c.workflowId c.executionId]?) hasks
      (fun _ _ _ _ hsame hr hs => (hs.entries_of_spares hr).trans hsame) rfl⟩
    rcases hends.answered hasks x hx with hold | hasked
    · cases hold
    · exact hasked
  rw [start_eq] at h
  rcases h.bind_cases with ⟨decided, q, hadmit, hrest⟩ | ⟨o, rfl, hadmit⟩
  · cases decided with
    | error e =>
      cases hrest
      exact .inl ⟨p, [], hadmit, rfl, (hspares hadmit).1, (hspares hadmit).2, .refl _ _,
        fun _ _ _ => rfl, fun _ => rfl⟩
    | ok decision =>
      have htracks := l.asks_track c totalFiles decision
      -- What is tracked is tracked after the admission, and lies under the key of the record.
      have hstarts : ∀ {tracked : Checked Unit} {p},
          (l.track c totalFiles decision).Ends F q tracked p →
          StartsAsAdmitted l c F s (.ok (.ok decision)) p := by
        intro tracked p htrack
        obtain ⟨after, hlog, -⟩ := htrack.alone
        have hsame := SameElsewhere.of_tracks htrack htracks
        refine ⟨q, after, hadmit, hlog, (hspares hadmit).1, (hspares hadmit).2, hsame,
          fun key now hkey => hsame.slots now hkey, fun hrejected => ?_⟩
        have hdecision := hrejected decision rfl
        unfold track at htrack
        rw [hdecision] at htrack
        cases htrack
        rfl
      rcases hrest.bind_cases with ⟨_, m, htrack, hdone⟩ | ⟨o, rfl, htrack⟩
      · cases hdone
        exact .inl (hstarts htrack)
      · right
        obtain ⟨rfl, hbound⟩ := Request.Tracks.overflow_of_ends htrack htracks
        refine ⟨rfl, hbound, decision, ?_, hstarts htrack⟩
        cases hadmitted : decision.isAdmitted with
        | true => rfl
        | false =>
          unfold track at htrack
          rw [hadmitted] at htrack
          cases htrack
  · exact .inl ⟨p, [], hadmit, rfl, (hspares hadmit).1, (hspares hadmit).2, .refl _ _,
      fun _ _ _ => rfl, fun _ => rfl⟩

/-- A comparison of the live counters with the durable records ends, and changes nothing. -/
theorem reconcile_changes_nothing {out : Checked Unit} (h : (reconcile c).Ends F ⟨s, []⟩ out p) :
    out = .ok () ∧ p.shared.coord = s.coord ∧ p.shared.limits = s.limits ∧
      p.shared.files = s.files := by
  refine ⟨?_, h.keeps
    (I := fun q => q.coord = s.coord ∧ q.limits = s.limits ∧ q.files = s.files)
    (asks_reconcile c) (fun q r reply q' hsame hr hs => ?_) ⟨rfl, rfl, rfl⟩⟩
  · cases out with
    | ok u => rfl
    | error o =>
      rcases h.overflow (asks_reconcile c) with ⟨call, store, hcall, hoverflow⟩ | hstop
      · cases call with
        | getFields => cases hoverflow
        | _ => exact hcall.elim
      · exact hstop.elim
  · obtain ⟨hcoord, hlimits, hfiles⟩ := hr.serves hs
    exact ⟨hcoord.trans hsame.1, hlimits.trans hsame.2.1, hfiles.trans hsame.2.2⟩

/-- Whatever state an execution starts and ends in, and whichever calls fail. Its end answers
    and leaves the slots as its release alone, and has tried both of them. Its start answers
    and leaves the slots as its admission alone, and does not touch the record unless the
    execution is admitted. All this unless a time to live reaches beyond the clock, and then
    the slots are those before the release and those after the admission. To compare the live
    counters with the durable records changes nothing. -/
theorem slots_beyond_tracking (l : Lifecycle) (c : ExecutionContext) (F : Faults) (s : Shared)
    (p : Point) :
    (∀ how out, (l.finish c how).Ends F ⟨s, []⟩ out p →
      EndsAsReleased c F s out p ∨
        out = .error .deadline ∧
          Moment.bound ≤ p.shared.now + (l.tracker.config.ttl how.status).nanos ∧
          SameElsewhere (Key.execution c.workflowId c.executionId) s p.shared) ∧
    (∀ totalFiles out, (l.start c totalFiles).Ends F ⟨s, []⟩ out p →
      StartsAsAdmitted l c F s out p ∨
        out = .error .deadline ∧
          Moment.bound ≤ p.shared.now + l.tracker.config.activeTtl.nanos ∧
          ∃ decision, decision.isAdmitted = true ∧
            StartsAsAdmitted l c F s (.ok (.ok decision)) p) ∧
    ∀ out, (reconcile c).Ends F ⟨s, []⟩ out p →
      out = .ok () ∧ p.shared.coord = s.coord ∧ p.shared.limits = s.limits ∧
        p.shared.files = s.files :=
  ⟨fun _ _ => finish_as_released, fun _ _ => start_as_admitted, fun _ => reconcile_changes_nothing⟩

/-- Admission with one slot each, and the default times to live. -/
def withOneSlot : Lifecycle := ⟨.withCeilings 1 1, ⟨{}⟩⟩

/-- Every write and every read of a record fails. -/
def failsTracking : CoordCall → Option CoordError
  | .setNewField .. | .setFields .. | .getFields .. => some (.unavailable "injected")
  | _ => none

/-- An execution starts while its record cannot be written. -/
def startedUntracked : Checked (Except AdmissionError Decision) × Point :=
  (withOneSlot.start ⟨"o", "w", "e", "c"⟩ 3).run (Point.answer failsTracking) ⟨{}, []⟩

/-- It ends in the same trouble. -/
def finishedUntracked : Checked Bool × Point :=
  (withOneSlot.finish ⟨"o", "w", "e", "c"⟩ .completed).run (Point.answer failsTracking)
    ⟨startedUntracked.2.shared, []⟩

/-- How many slots an organisation has. -/
def slotCount (o : String) (s : Shared) : Nat := (s.coord.slots s.now (Key.orgSlots o)).size

theorem slots_beyond_tracking_untracked :
    ∃ p p' : Point,
      StartsAsAdmitted withOneSlot ⟨"o", "w", "e", "c"⟩ .any {} (.ok (.ok (.admitted false))) p ∧
      slotCount "o" p.shared = 1 ∧
      EndsAsReleased ⟨"o", "w", "e", "c"⟩ .any p.shared (.ok true) p' ∧
      slotCount "o" p'.shared = 0 := by
  have hstart : (withOneSlot.start ⟨"o", "w", "e", "c"⟩ 3).Ends .any ⟨{}, []⟩
      startedUntracked.1 startedUntracked.2 := Program.ends_run (fun _ _ _ => trivial) _ _
  have hend : (withOneSlot.finish ⟨"o", "w", "e", "c"⟩ .completed).Ends .any
      ⟨startedUntracked.2.shared, []⟩ finishedUntracked.1 finishedUntracked.2 :=
    Program.ends_run (fun _ _ _ => trivial) _ _
  have hstarted : startedUntracked.1 = .ok (.ok (.admitted false)) := by decide +kernel
  have hended : finishedUntracked.1 = .ok true := by decide +kernel
  have hslots : slotCount "o" startedUntracked.2.shared = 1 ∧
      slotCount "o" finishedUntracked.2.shared = 0 := by
    decide +kernel
  rw [hstarted] at hstart
  rw [hended] at hend
  refine ⟨startedUntracked.2, finishedUntracked.2, ?_, hslots.1, ?_, hslots.2⟩
  · rcases (slots_beyond_tracking _ _ _ _ _).2.1 _ _ hstart with hadmitted | ⟨hbeyond, -⟩
    · exact hadmitted
    · cases hbeyond
  · rcases (slots_beyond_tracking _ _ _ _ _).1 _ _ hend with hreleased | ⟨hbeyond, -⟩
    · exact hreleased
    · cases hbeyond

end Lifecycle

end ExecutionControl
