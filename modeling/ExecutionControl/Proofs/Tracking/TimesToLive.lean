import ExecutionControl.Proofs.SystemOperations
import ExecutionControl.Proofs.Tracking.Deadlines

/-! # The time to live follows the status

    On a store that never fails, whatever was done before: after an operation that writes, the
    record has a status, a lookup that finds it reports that status, and the record goes away
    the time to live of that status later (`deadline_follows_status`). Each operation comes by
    the time to live in its own way: an update from the status that it sets, an increment from
    the fields that it reads back, and one that starts a record always takes that of a running
    execution (`Grants.eq_ttl`).

    An update that is refused does not refresh anything, and an operation that starts a record
    does so with the time to live of a running execution even if it finds one that is terminal
    (`deadline_follows_status_fails`).
-/

namespace ExecutionControl

open StatusRecord

/-- A status goes by its own name. -/
theorem ExecutionStatus.name_injective {status status' : ExecutionStatus}
    (h : status.name = status'.name) : status = status' := by
  have hparse : ExecutionStatus.parse status.name = .ok status' := h ▸ parse_name status'
  exact Except.ok.inj ((parse_name status).symm.trans hparse)

/-! ### Which time to live is asked for -/

namespace TrackerOperation

/-- Whether an operation may leave a record in a status: an update sets its own, the others
    take what is there. -/
def AgreesWith : TrackerOperation → ExecutionStatus → Prop
  | .update value, status => value.resolve = .ok status
  | _, _ => True

/-- Whether an operation looks at the status of a record for its time to live. One that starts
    a record does not, which makes no difference unless the status is terminal. -/
def Heeds : TrackerOperation → ExecutionStatus → Prop
  | .create _, status => status.isTerminal = false
  | _, _ => True

/-- Fields with a status that an operation may have left there at a stage. -/
def Marks (op : TrackerOperation) (stage : TrackStage) (f : Fields) : Prop :=
  ∃ status : ExecutionStatus, f[statusField]? = some status.name ∧
    (stage.isMidway = false → op.AgreesWith status)

end TrackerOperation

variable {t : Tracker} {op : TrackerOperation} {read : Option Fields} {ttl : Duration}
  {f : Fields} {status : ExecutionStatus}

theorem Tracker.ttlFor_of_status (hstatus : f[statusField]? = some status.name) :
    t.ttlFor f = t.config.ttl status := by
  simp [ttlFor, hstatus, ExecutionStatus.parse_name]

theorem TrackerConfig.ttl_of_not_terminal {c : TrackerConfig} (h : status.isTerminal = false) :
    c.ttl status = c.activeTtl := by
  simp [ttl, h]

/-- What an operation asks for is the time to live of the status in the fields that it has
    read, if any. -/
theorem Tracker.Grants.eq_ttl (h : t.Grants op read ttl)
    (hread : ∀ fields, read = some fields → fields = f)
    (hstatus : f[statusField]? = some status.name) (hagrees : op.AgreesWith status)
    (hheeds : op.Heeds status) : ttl = t.config.ttl status := by
  cases op with
  | create totalFiles => exact h.trans (TrackerConfig.ttl_of_not_terminal hheeds).symm
  | update value =>
    obtain ⟨status', hvalue, rfl⟩ := h
    obtain rfl : status' = status := Except.ok.inj (hvalue.symm.trans hagrees)
    rfl
  | increment c =>
    obtain ⟨fields, hfields, rfl⟩ := h
    rw [hread fields hfields, ttlFor_of_status hstatus]
  | delete => exact h.elim

/-- Whatever is asked for is the time to live of some status. -/
theorem Tracker.Grants.exists_status (h : t.Grants op read ttl) :
    ∃ status, ttl = t.config.ttl status := by
  have hactive : t.config.activeTtl = t.config.ttl .pending := rfl
  cases op with
  | create totalFiles => exact ⟨.pending, h.trans hactive⟩
  | update value =>
    obtain ⟨status, -, rfl⟩ := h
    exact ⟨status, rfl⟩
  | increment c =>
    obtain ⟨fields, -, rfl⟩ := h
    unfold ttlFor
    split
    · exact ⟨_, rfl⟩
    · exact ⟨.pending, hactive⟩
  | delete => exact h.elim

/-! ### A record while an operation runs -/

namespace CoordStore

variable {s s' : CoordStore} {now later : Moment} {key : String} {deadline : Option Moment}
  {stage : TrackStage}

/-- A record in a status lies under a key, until a deadline. -/
def StaysUntil (s : CoordStore) (key : String) (status : ExecutionStatus) (deadline : Moment) :
    Prop :=
  ∃ f, s.entries[key]? = some ⟨.hash f, some deadline⟩ ∧ f[statusField]? = some status.name

/-- The record of an operation that has not settled it: it still has its deadline, it has a
    status as soon as something is written, and the fields that were read are the fields that
    are there. -/
structure Underway (s : CoordStore) (now : Moment) (key : String) (deadline : Option Moment)
    (op : TrackerOperation) (stage : TrackStage) (read : Option Fields) : Prop where
  deadline : s.deadline? now key = deadline
  status : stage ≠ .fresh → ∃ f, s.hash now key = .ok f ∧ op.Marks stage f
  read : ∀ fields, read = some fields →
    (∃ sum, stage = .written sum) ∧ s.hash now key = .ok fields

namespace Underway

theorem at_later (h : s.Underway now key deadline op stage read) (hlater : now ≤ later)
    (hlasts : ∀ time, deadline = some time → later < time) :
    s.Underway later key deadline op stage read := by
  have hl : s.Lasts now later key := by
    unfold Lasts
    rw [h.deadline]
    exact hlasts
  refine ⟨?_, ?_, ?_⟩
  · rw [deadline?_of_lasts hlater hl]
    exact h.deadline
  · rw [hash_of_lasts hlater hl]
    exact h.status
  · rw [hash_of_lasts hlater hl]
    exact h.read

/-- Fields that were read before the last write do not matter any more. -/
theorem read_eq_none (h : s.Underway now key deadline op stage read)
    (hstage : ∀ sum, stage ≠ .written sum) : read = none := by
  cases read with
  | none => rfl
  | some fields =>
    obtain ⟨⟨sum, hsum⟩, -⟩ := h.read fields rfl
    exact absurd hsum (hstage sum)

/-- There is a status where something was written. -/
theorem marks (h : s.Underway now key deadline op stage read) (hhash : s.hash now key = .ok f)
    (hstage : stage ≠ .fresh) : op.Marks stage f := by
  obtain ⟨f', hhash', hmarks⟩ := h.status hstage
  rw [hhash] at hhash'
  cases hhash'
  exact hmarks

/-- Fields with a status are there after a call, before anything is read. -/
theorem advance (h : s.Underway now key deadline op stage read)
    (hstage : ∀ sum, stage ≠ .written sum) {stage' : TrackStage}
    (hdeadline : s'.deadline? now key = s.deadline? now key) (hhash : s'.hash now key = .ok f)
    (hmarks : op.Marks stage' f) : s'.Underway now key deadline op stage' read where
  deadline := hdeadline.trans h.deadline
  status _ := ⟨f, hhash, hmarks⟩
  read := by
    rw [h.read_eq_none hstage]
    nofun

end Underway

end CoordStore

/-- After an operation the record has a status, and stays from now on for the time to live of
    that status, if the operation heeds it. -/
def Tracker.Dates (t : Tracker) (op : TrackerOperation) (s : CoordStore) (now : Moment)
    (key : String) : Prop :=
  ∃ status deadline, s.StaysUntil key status deadline ∧
    (op.Heeds status → deadline = now + (t.config.ttl status).nanos)

/-- What is known of the record of an operation that has come to a stage. -/
def Tracker.Reaches (t : Tracker) (op : TrackerOperation) (s : CoordStore) (now : Moment)
    (key : String) (deadline : Option Moment) (g : TrackStage × DateStage) : Prop :=
  match g.2 with
  | .unsettled read => s.Underway now key deadline op g.1 read
  | _ => op = .delete ∨ t.Dates op s now key

namespace CoordStore

variable {s s' : CoordStore} {now : Moment} {key : String} {deadline : Option Moment}
  {stage : TrackStage}

/-- A field that is new is set on the way, and nothing is set if it is not new. -/
theorem Underway.setNewField {field value : String} {answer : Except CoordError Bool}
    (havailable : s.available = true) (hhash : s.hash now key = .ok f)
    (hp : s.perform now (.setNewField key field value) = .ok (answer, s'))
    (hstage : ∀ sum, stage ≠ .written sum)
    (hold : s.Underway now key deadline op stage read → f.contains field = true →
      op.Marks (.midway stage.sum?) f)
    (hnew : s.Underway now key deadline op stage read →
      op.Marks (.midway stage.sum?) (f.insert field value)) :
    ∃ v, answer = .ok v ∧ (s.Underway now key deadline op stage read →
      s'.Underway now key deadline op (.midway stage.sum?) read) := by
  rw [perform_setNewField_of_hash havailable hhash] at hp
  split at hp
  · rename_i hcontains
    cases hp
    exact ⟨_, rfl, fun h => h.advance hstage rfl hhash (hold h hcontains)⟩
  · cases hp
    exact ⟨_, rfl, fun h => h.advance hstage deadline?_putHash hash_putHash (hnew h)⟩

/-- Fields are set, and everything is written. -/
theorem Underway.setFields {fields : List (String × String)} {answer : Except CoordError Unit}
    (havailable : s.available = true) (hhash : s.hash now key = .ok f)
    (hp : s.perform now (.setFields key fields) = .ok (answer, s'))
    (hstage : ∀ sum, stage ≠ .written sum)
    (hmarks : s.Underway now key deadline op stage read →
      op.Marks (.written stage.sum?) (fields.foldl (fun f p => f.insert p.1 p.2) f)) :
    ∃ v, answer = .ok v ∧ (s.Underway now key deadline op stage read →
      s'.Underway now key deadline op (.written stage.sum?) read) := by
  rw [perform_setFields_of_hash havailable hhash] at hp
  cases hp
  exact ⟨_, rfl, fun h => h.advance hstage deadline?_putHash hash_putHash (hmarks h)⟩

/-- A call of an operation succeeds on a typed store that can be reached, and is one step on
    the way to a record that has its deadline. -/
theorem Typed.performs {call : CoordCall} {answer : Except CoordError call.Result}
    (deadline : Option Moment) (htyped : s.Typed) (havailable : s.available = true)
    (hkey : Key.IsExecution key)
    (hpermits : TrackStage.Permits key op stage (.coord call))
    (hdates : DateStage.Permits t op (.unsettled read) (.coord call))
    (hp : s.perform now call = .ok (answer, s')) :
    ∃ v, answer = .ok v ∧ (s.Underway now key deadline op stage read →
      t.Reaches op s' now key deadline (stage.after (.coord call) (.ok v),
        (DateStage.unsettled read).after (.coord call) (.ok v))) := by
  obtain ⟨f, hhash, hlegible⟩ : ∃ f, s.hash now key = .ok f ∧ Legible f :=
    htyped.hash_eq_ok hkey
  -- Midway there is a status already, which other fields do not touch.
  have hother : ∀ {sum sum' : Option Nat} {f' : Fields}, f'[statusField]? = f[statusField]? →
      s.Underway now key deadline op (.midway sum) read → op.Marks (.midway sum') f' := by
    intro sum sum' f' hf' h
    obtain ⟨status, hstatus, -⟩ := h.marks hhash nofun
    exact ⟨status, hf'.trans hstatus, nofun⟩
  cases hpermits with
  | seed =>
    refine Underway.setNewField havailable hhash hp nofun (fun _ hcontains => ?_)
      fun _ => ⟨.pending, by simp, nofun⟩
    rw [Std.ExtTreeMap.contains_eq_isSome_getElem?] at hcontains
    obtain ⟨value, hvalue⟩ := Option.isSome_iff_exists.mp hcontains
    obtain ⟨status, rfl⟩ := (hlegible _ _ hvalue).2 rfl
    exact ⟨status, hvalue, nofun⟩
  | startCounter c =>
    exact Underway.setNewField havailable hhash hp nofun (fun h _ => hother rfl h)
      (hother (getElem?_insert_of_ne (by cases c <;> decide)))
  | stamp text =>
    exact Underway.setNewField havailable hhash hp nofun (fun h _ => hother rfl h)
      (hother (getElem?_insert_of_ne (by decide)))
  | total text =>
    refine Underway.setFields havailable hhash hp nofun fun h => ?_
    obtain ⟨status, hstatus, -⟩ := h.marks hhash nofun
    refine ⟨status, ?_, fun _ => trivial⟩
    simp only [List.foldl_cons, List.foldl_nil]
    rw [getElem?_insert_of_ne (by decide), getElem?_insert_of_ne (by decide)]
    exact hstatus
  | touch text =>
    refine Underway.setFields havailable hhash hp nofun fun h => ?_
    obtain ⟨status, hstatus, -⟩ := h.marks hhash nofun
    refine ⟨status, ?_, fun _ => trivial⟩
    simp only [List.foldl_cons, List.foldl_nil]
    rw [getElem?_insert_of_ne (by decide)]
    exact hstatus
  | @mark value status hvalue text =>
    refine Underway.setFields havailable hhash hp nofun fun _ => ⟨status, ?_, fun _ => hvalue⟩
    simp only [List.foldl_cons, List.foldl_nil]
    rw [getElem?_insert_of_ne (by decide)]
    simp
  | count c =>
    obtain ⟨n, hshows, hn⟩ := hlegible.shows c.field_cases
    obtain ⟨rfl, -, rfl⟩ := perform_increment_of_hash havailable hhash hshows hn hp
    exact ⟨_, rfl, fun h => h.advance nofun deadline?_putHash hash_putHash
      (hother (getElem?_insert_of_ne (by cases c <;> decide)) h)⟩
  | @look op sum =>
    rw [perform_getFields_of_hash havailable hhash] at hp
    cases hp
    refine ⟨_, rfl, fun h => ⟨h.deadline, h.status, ?_⟩⟩
    rintro fields ⟨⟩
    exact ⟨⟨sum, rfl⟩, hhash⟩
  | expire ttl =>
    have hgrants : t.Grants op read ttl := hdates key ttl rfl
    rcases perform_expire_cases hp with ⟨-, hunavailable, -⟩ | ⟨e, he, rfl, rfl⟩ | ⟨hnone, rfl, -⟩
    · rw [havailable] at hunavailable
      cases hunavailable
    · refine ⟨_, rfl, fun h => .inr ?_⟩
      obtain ⟨status, hstatus, hagrees⟩ := h.marks hhash nofun
      obtain ⟨deadline, hlive⟩ := live?_of_field hhash hstatus
      obtain rfl : e = ⟨.hash f, deadline⟩ := Option.some.inj (he.symm.trans hlive)
      refine ⟨status, _, ⟨f, entries_put_self, hstatus⟩, fun hheeds => ?_⟩
      have hread : ∀ fields, read = some fields → fields = f := fun fields hfields =>
        Except.ok.inj ((h.read fields hfields).2.symm.trans hhash)
      rw [hgrants.eq_ttl hread hstatus (hagrees rfl) hheeds]
    · -- A record that is written is there.
      refine ⟨_, rfl, fun h => ?_⟩
      obtain ⟨status, hstatus, -⟩ := h.marks hhash nofun
      obtain ⟨deadline, hlive⟩ := live?_of_field hhash hstatus
      rw [hnone] at hlive
      cases hlive
  | delete =>
    rcases perform_delete_cases hp with ⟨-, hunavailable, -⟩ | ⟨⟨v, rfl⟩, -⟩
    · rw [havailable] at hunavailable
      cases hunavailable
    · exact ⟨v, rfl, fun _ => .inl rfl⟩

end CoordStore

/-! ### Operations that run alone -/

namespace Tracker

variable {workflowId executionId key : String} {s₀ s s' : Shared} {calls : List TrackerCall}
  {F : Faults}

/-- What holds while an operation runs that started in a state, on a store that never fails. If
    what it found lasts, then it is on its way to a record that has its deadline. -/
structure Proceeds (t : Tracker) (op : TrackerOperation) (s₀ : Shared) (key : String)
    (g : TrackStage × DateStage) (s : Shared) : Prop where
  typed : s.coord.Typed
  available : s.coord.available = true
  sound : g.2 ≠ .failed
  record : s₀.coord.Lasts s₀.now s.now key →
    t.Reaches op s.coord s.now key (s₀.coord.deadline? s₀.now key) g

theorem Proceeds.start (htyped : s.coord.Typed) (havailable : s.coord.available = true) :
    t.Proceeds op s key (.fresh, .unsettled none) s where
  typed := htyped
  available := havailable
  sound := nofun
  record _ := ⟨rfl, fun h => absurd rfl h, nofun⟩

/-- A request that is answered leads on, and does not fail. -/
theorem Proceeds.serves {g : TrackStage × DateStage} {r : Request} {reply : r.Reply}
    (h : t.Proceeds op s₀ (Key.execution workflowId executionId) g s)
    (hpermits : TrackStage.Permits (Key.execution workflowId executionId) op g.1 r)
    (hdates : DateStage.Permits t op g.2 r) (hs : s.Serves .never r (.ok reply) s') :
    t.Proceeds op s₀ (Key.execution workflowId executionId)
      (g.1.after r reply, g.2.after r reply) s' := by
  obtain ⟨stage, dating⟩ := g
  cases dating with
  | settled | failed => exact hdates.elim
  | unsettled read =>
    have htyped := hs.typed_of_suits hpermits.suits h.typed
    have havailable := hs.available.trans h.available
    -- If the record lasts until the answer, then it lasted so far.
    have hunderway : s₀.coord.Lasts s₀.now s'.now (Key.execution workflowId executionId) →
        s.coord.Underway s'.now (Key.execution workflowId executionId) _ op stage read :=
      fun hl => (h.record fun time htime => Nat.lt_of_le_of_lt hs.now_le (hl time htime)).at_later
        hs.now_le hl
    cases r with
    | coord call =>
      rcases hs.answered with hp | ⟨⟨_, hfault, -⟩, -⟩
      · obtain ⟨v, rfl, hreaches⟩ := h.typed.performs _ h.available ⟨_, _, rfl⟩ hpermits hdates hp
        exact ⟨htyped, havailable, by cases call <;> nofun, fun hl => hreaches (hunderway hl)⟩
      · exact hfault.elim
    | time =>
      rw [← hs.coord_eq nofun] at hunderway
      cases hpermits
      exact ⟨htyped, havailable, nofun, hunderway⟩
    | _ => cases hpermits

/-- An operation overflows only if its counter is full or its deadline lies beyond the
    clock. -/
theorem Proceeds.overflows {g : TrackStage × DateStage} {r : Request} {o : Overflow}
    (h : t.Proceeds op s₀ (Key.execution workflowId executionId) g s)
    (hpermits : TrackStage.Permits (Key.execution workflowId executionId) op g.1 r)
    (hdates : DateStage.Permits t op g.2 r) (hs : s.Serves .never r (.error o) s') :
    o = .count ∧ (∃ c, op = .increment c ∧ s'.coord.Reads s'.now
        (Key.execution workflowId executionId) c.field Text.maxInt64) ∨
      o = .deadline ∧ ∃ status, Moment.bound ≤ s'.now + (t.config.ttl status).nanos := by
  obtain ⟨stage, dating⟩ := g
  cases dating with
  | settled | failed => exact hdates.elim
  | unsettled read =>
    obtain ⟨call, rfl, hp⟩ : ∃ call, r = .coord call ∧ s.coord.perform s'.now call = .error o := by
      rcases hs.overflow with hcall | rfl
      · exact hcall
      · cases hpermits
    cases hpermits with
    | count c =>
      -- A counter overflows only from the greatest number that it can hold.
      obtain ⟨rfl, f, n, hhash, hcounter, hfits⟩ := CoordStore.perform_increment_error hp
      obtain ⟨m, hshows, hm⟩ := (h.typed.legible_hash ⟨_, _, rfl⟩ hhash).shows c.field_cases
      obtain rfl : (m : Int) = n := Except.ok.inj ((hshows.counter hm).symm.trans hcounter)
      obtain rfl := CoordStore.eq_maxInt64 hfits hm
      rw [← hs.stopped.1] at hhash
      exact .inl ⟨rfl, c, rfl, f, hhash, hshows, hm⟩
    | expire ttl =>
      obtain ⟨rfl, hbound⟩ := CoordStore.perform_expire_error hp
      obtain ⟨status, rfl⟩ := (hdates _ ttl rfl).exists_status
      exact .inr ⟨rfl, status, hbound⟩
    | _ => simp [CoordStore.perform] at hp

/-! ### Lookups -/

theorem status_of_ofFields {now : Timestamp} {r : StatusRecord}
    (hstatus : f[statusField]? = some status.name)
    (h : ofFields workflowId executionId f now = .ok r) : r.status = status := by
  have hread : readStatus f (Key.execution workflowId executionId) = .ok status := by
    simp only [readStatus, hstatus, ExecutionStatus.parse_name]
  simp only [ofFields, hread, bind, Except.bind] at h
  split at h
  · cases h
  · split at h
    · cases h
    · split at h
      · cases h
      · cases h
        rfl

/-- What a lookup says of a record in a status that stays until a deadline. -/
def Reports (status : ExecutionStatus) (deadline : Moment) (answer : StatusLookup) (q : Point) :
    Prop :=
  (∀ r, answer = .found r → r.status = status) ∧ (answer = .missing → deadline ≤ q.shared.now)

theorem get_ensures_reports {deadline : Moment}
    (h : s.coord.StaysUntil (Key.execution workflowId executionId) status deadline) :
    (get workflowId executionId).ensures (serving F fun _ _ => True) (Reports status deadline)
      ⟨s, []⟩ := by
  obtain ⟨f, hentry, hstatus⟩ := h
  -- A lookup that cannot tell reports nothing.
  have hunknown : ∀ {event : Event} {p : Point}, Program.ensures (serving F fun _ _ => True)
      (Reports status deadline) (do Program.report event; return .unknown) p := by
    intro event p
    simp only [Program.ensures_bind, Program.ensures_report]
    exact serving_other (by simp) fun _ _ _ _ => ⟨by simp, by simp⟩
  simp only [get, Program.ensures_bind, Program.ensures_coord]
  refine serving_coord (fun reply s' hnow hp => ?_) (fun _ _ _ _ _ => hunknown)
    fun _ _ _ _ _ => trivial
  cases reply with
  | error e => exact hunknown
  | ok fields =>
    have hhash := CoordStore.perform_getFields_ok hp
    by_cases hlive : Entry.isLive ⟨.hash f, some deadline⟩ s'.now
    · have hsome : s.coord.live? s'.now (Key.execution workflowId executionId) =
          some ⟨.hash f, some deadline⟩ := CoordStore.live?_eq_some.mpr ⟨hentry, hlive⟩
      simp only [CoordStore.hash, CoordStore.datum?, hsome, Option.map_some] at hhash
      cases hhash
      have hfull : f.isEmpty = false := by
        rw [Std.ExtTreeMap.isEmpty_eq_false_iff]
        rintro rfl
        simp at hstatus
      simp only [hfull, Bool.false_eq_true, if_false, Program.ensures_bind, Program.ensures_time]
      refine serving_other (by simp) fun now s'' _ _ => ?_
      cases hr : ofFields workflowId executionId f now with
      | error e => exact hunknown
      | ok r =>
        refine ⟨fun r' hr' => ?_, by simp⟩
        cases hr'
        exact status_of_ofFields hstatus hr
    · have hnone : s.coord.live? s'.now (Key.execution workflowId executionId) = none := by
        rw [CoordStore.live?_of_entry hentry, if_neg hlive]
      have hover : deadline ≤ s'.now := by simpa [Entry.isLive] using hlive
      rw [CoordStore.hash_of_absent hnone] at hhash
      cases hhash
      simp only [Std.ExtTreeMap.isEmpty_empty, if_true]
      exact ⟨by simp, fun _ => hover⟩

/-- Whatever fails, a lookup that finds a record reports its status, and it does not miss the
    record before the deadline. -/
theorem get_reports {deadline : Moment} {answer : StatusLookup} {q : Point}
    (h : s.coord.StaysUntil (Key.execution workflowId executionId) status deadline)
    (hends : (get workflowId executionId).Ends F ⟨s, []⟩ (.ok answer) q) :
    Reports status deadline answer q :=
  (hends.of_ensures (get_ensures_reports h)).1 answer rfl

/-! ### Runs -/

/-- A store on which operations ran that never failed is typed and can be reached. -/
theorem Calls.typed (h : t.Calls F s₀ calls s) (htyped : s₀.coord.Typed)
    (havailable : s₀.coord.available = true) : s.coord.Typed ∧ s.coord.available = true := by
  induction h with
  | start => exact ⟨htyped, havailable⟩
  | wait _ _ ih => exact ih
  | call c _ hends ih =>
    refine hends.keeps (I := fun s => s.coord.Typed ∧ s.coord.available = true)
      (Program.asks_of_ensures (endsAs t _ _ c.op)) ?_ ih
    rintro s r reply s' ⟨htyped, havailable⟩ ⟨stage, hpermits⟩ hs
    exact ⟨hs.typed_of_suits hpermits.suits htyped, hs.available.trans havailable⟩

/-- Only an update with a text that names no status writes nothing, and it asks for nothing. -/
theorem eq_of_not_writes {out : Checked op.Result} {p : Point} (hop : op ≠ .delete)
    (hwrites : ¬ op.Writes)
    (hends : (t.program workflowId executionId op).Ends F ⟨s, []⟩ out p) : p = ⟨s, []⟩ := by
  cases op with
  | create totalFiles => exact absurd trivial hwrites
  | increment c => exact absurd trivial hwrites
  | delete => exact absurd rfl hop
  | update value =>
    cases hvalue : value.resolve with
    | ok status => exact absurd ⟨status, hvalue⟩ hwrites
    | error e =>
      simp only [program, updateStatus, hvalue] at hends
      cases hends
      rfl

/-- Whatever ran before on a store that never fails: an operation that writes leaves a record
    that goes away the time to live of its status later, if what the operation finds does not
    go away while it runs. Only one that starts a record and finds it terminal may choose
    another deadline. An update that is refused changes nothing. -/
theorem deadline_follows_status (t : Tracker) (s₀ s : Shared) (calls : List TrackerCall)
    (h : t.Calls .never s₀ calls s) (htyped : s₀.coord.Typed)
    (havailable : s₀.coord.available = true) (workflowId executionId : String)
    (op : TrackerOperation) (hop : op ≠ .delete) (out : Checked op.Result) (p : Point)
    (hends : (t.program workflowId executionId op).Ends .never ⟨s, []⟩ out p)
    (hlasts : s.coord.Lasts s.now p.shared.now (Key.execution workflowId executionId)) :
    ¬ op.Writes ∧ p.shared = s ∨
    (∃ result status deadline, out = .ok result ∧ op.isOk result ∧
      p.shared.coord.StaysUntil (Key.execution workflowId executionId) status deadline ∧
      (op.Heeds status → deadline = p.shared.now + (t.config.ttl status).nanos) ∧
      ∀ F answer q, (get workflowId executionId).Ends F ⟨p.shared, []⟩ (.ok answer) q →
        Reports status deadline answer q) ∨
    out = .error .count ∧ (∃ c, op = .increment c ∧ p.shared.coord.Reads p.shared.now
      (Key.execution workflowId executionId) c.field Text.maxInt64) ∨
    out = .error .deadline ∧
      ∃ status, Moment.bound ≤ p.shared.now + (t.config.ttl status).nanos := by
  by_cases hwrites : op.Writes
  · right
    obtain ⟨htyped, havailable⟩ := h.typed htyped havailable
    obtain ⟨hok, herror⟩ := hends.follows (course_endsAs t workflowId executionId op)
      (I := t.Proceeds op s (Key.execution workflowId executionId))
      (fun _ _ _ _ _ h hpermits hs => h.serves hpermits.1 hpermits.2 hs)
      (.start htyped havailable)
    cases out with
    | ok result =>
      obtain ⟨⟨stage, dating⟩, ⟨-, hended⟩, hproceeds⟩ := hok result rfl
      cases dating with
      | failed => exact absurd rfl hproceeds.sound
      | unsettled read => exact absurd hwrites hended.2
      | settled =>
        rcases hproceeds.record hlasts with hdelete | ⟨status, deadline, hstays, hheeds⟩
        · exact absurd hdelete hop
        · exact .inl ⟨result, status, deadline, rfl, hended, hstays, hheeds,
            fun F answer q hget => get_reports hstays hget⟩
    | error o =>
      obtain ⟨g, s', r, hproceeds, hpermits, hs⟩ := herror o rfl
      rcases hproceeds.overflows hpermits.1 hpermits.2 hs with ⟨rfl, hfull⟩ | ⟨rfl, hbound⟩
      · exact .inr (.inl ⟨rfl, hfull⟩)
      · exact .inr (.inr ⟨rfl, hbound⟩)
  · exact .inl ⟨hwrites, by rw [eq_of_not_writes hop hwrites hends]⟩

/-- The name of the status and the deadline of the record under a key. -/
def standing? (key : String) (s : Shared) : Option (String × Option Moment) :=
  match s.coord.entries[key]? with
  | some ⟨.hash f, deadline⟩ => f[statusField]?.map fun name => (name, deadline)
  | _ => none

theorem standing?_eq_some {deadline : Moment} :
    standing? key s = some (status.name, some deadline) ↔
      s.coord.StaysUntil key status deadline := by
  constructor
  · intro h
    unfold standing? at h
    split at h
    · rename_i f d hentry
      obtain ⟨name, hname, hpair⟩ := Option.map_eq_some_iff.mp h
      obtain ⟨rfl, rfl⟩ := Prod.mk.inj hpair
      exact ⟨f, hentry, hname⟩
    · cases h
  · rintro ⟨f, hentry, hstatus⟩
    simp [standing?, hentry, hstatus]

/-- A record that is started, and whose execution is completed. -/
def completedRecord : Shared :=
  (TrackerCall.operate "w" "e" (.update (.canonical .completed))
    (TrackerCall.operate "w" "e" (.create 3) {}).after).after

theorem calls_completedRecord :
    ∃ calls, withDefaultTtls.Calls .never {} calls completedRecord :=
  ⟨_, (Calls.start.operate "w" "e" (.create 3)).operate "w" "e" _⟩

/-- A file that is counted late. -/
def lateCount : TrackerCall := .operate "w" "e" (.increment .completed) (completedRecord.wait 5)

/-- The record of a completed execution stays for an hour from the last file that is counted. -/
theorem deadline_follows_status_late_count :
    ∃ calls, withDefaultTtls.Calls .never {} (lateCount :: calls) lateCount.after ∧
      lateCount.after.coord.StaysUntil lateCount.key .completed
        (lateCount.after.now + (withDefaultTtls.config.ttl .completed).nanos) := by
  obtain ⟨calls, hcalls⟩ := calls_completedRecord
  have hwait : withDefaultTtls.Calls .never {} calls (completedRecord.wait 5) :=
    hcalls.wait (by decide +kernel)
  have hends := operate_ends "w" "e" (.increment .completed) (completedRecord.wait 5)
  have hnow : lateCount.after.now = (completedRecord.wait 5).now := by decide +kernel
  have hok : lateCount.outcome.toOption.isSome := by decide +kernel
  have hstatus : (standing? lateCount.key lateCount.after).map (·.1) =
      some ExecutionStatus.completed.name := by decide +kernel
  have hlasts : (completedRecord.wait 5).coord.Lasts (completedRecord.wait 5).now
      lateCount.after.now (Key.execution "w" "e") := by
    rw [hnow]
    exact CoordStore.lasts_self
  refine ⟨calls, hwait.operate "w" "e" _, ?_⟩
  have hcases := deadline_follows_status _ _ _ _ hwait (CoordStore.typed_empty rfl) rfl "w" "e"
    (.increment .completed) nofun _ _ hends hlasts
  -- What was run is not computed any further.
  change (operate "w" "e" (.increment .completed) (completedRecord.wait 5)).1.toOption.isSome at hok
  generalize (operate "w" "e" (.increment .completed) (completedRecord.wait 5)).1 = out
    at hcases hok
  rcases hcases with ⟨hwrites, -⟩ | ⟨result, status, deadline, -, -, hstays, hheeds, -⟩ |
    ⟨rfl, -⟩ | ⟨rfl, -⟩
  · exact absurd trivial hwrites
  · have hstanding : standing? lateCount.key lateCount.after = some (status.name, some deadline) :=
      standing?_eq_some.mpr hstays
    rw [hstanding] at hstatus
    obtain rfl : status = .completed := ExecutionStatus.name_injective (Option.some.inj hstatus)
    have hdeadline : deadline =
        lateCount.after.now + (withDefaultTtls.config.ttl .completed).nanos := hheeds trivial
    rw [← hdeadline]
    exact hstays
  · cases hok
  · cases hok

/-- An update with a text that names no status. -/
def refusedUpdate : TrackerCall :=
  .operate "w" "e" (.update (.text "bogus"))
    ((TrackerCall.operate "w" "e" (.create 3) {}).after.wait 5)

/-- A record that is started again when its execution is completed. -/
def startedAgain : TrackerCall := .operate "w" "e" (.create 3) completedRecord

/-- After an update that is refused the deadline is that of before, and a completed execution
    that is started again keeps its status and gets the time to live of a running one. -/
theorem deadline_follows_status_fails :
    (∃ calls, withDefaultTtls.Calls .never {} (refusedUpdate :: calls) refusedUpdate.after ∧
      ∃ deadline, refusedUpdate.after.coord.StaysUntil refusedUpdate.key .pending deadline ∧
        deadline ≠ refusedUpdate.after.now + (withDefaultTtls.config.ttl .pending).nanos) ∧
    ∃ calls, withDefaultTtls.Calls .never {} (startedAgain :: calls) startedAgain.after ∧
      ∃ deadline, startedAgain.after.coord.StaysUntil startedAgain.key .completed deadline ∧
        deadline ≠ startedAgain.after.now + (withDefaultTtls.config.ttl .completed).nanos := by
  constructor
  · have hstanding : standing? refusedUpdate.key refusedUpdate.after =
        some (ExecutionStatus.pending.name, some 21600000000000) := by decide +kernel
    have hlater : 21600000000000 ≠
        refusedUpdate.after.now + (withDefaultTtls.config.ttl .pending).nanos := by decide +kernel
    have hnow : (TrackerCall.operate "w" "e" (.create 3) {}).after.now ≤ 5 := by decide +kernel
    have hwait := (Calls.start.operate "w" "e" (.create 3)).wait hnow
    exact ⟨_, hwait.operate "w" "e" _, _, standing?_eq_some.mp hstanding, hlater⟩
  · obtain ⟨calls, hcalls⟩ := calls_completedRecord
    have hstanding : standing? startedAgain.key startedAgain.after =
        some (ExecutionStatus.completed.name, some 21600000000000) := by decide +kernel
    have hlonger : 21600000000000 ≠
        startedAgain.after.now + (withDefaultTtls.config.ttl .completed).nanos := by decide +kernel
    exact ⟨calls, hcalls.operate "w" "e" _, _, standing?_eq_some.mp hstanding, hlonger⟩

end Tracker

end ExecutionControl
