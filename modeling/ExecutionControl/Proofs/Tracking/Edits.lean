import ExecutionControl.Proofs.Stretches
import ExecutionControl.Proofs.Tracking.TimesToLive

/-! # Operations as edits of a hash

    What an operation makes of the fields of a record is a function of these fields and of
    the time that it has read (`TrackerOperation.edit`). On a store that never fails an
    operation that runs alone leaves exactly these fields, if what it finds does not go away
    while it runs (`ends_edited`).

    Which fields an edit touches is said field by field, so that what is known of one field
    goes from edit to edit.
-/

namespace ExecutionControl

open StatusRecord

/-! ### Edits -/

namespace TrackerOperation

/-- The fields after the first calls of an increment: a record that is not there is started. -/
def seed (time : Timestamp) (f : Fields) : Fields :=
  if f.contains statusField then f
  else (f.insertIfNew statusField ExecutionStatus.pending.name).insertIfNew createdField
    time.offsetText

/-- The fields after an increment, which changes nothing more if its counter is full or is no
    number. -/
def countUp (key field : String) (time : Timestamp) (f : Fields) : Fields :=
  match CoordStore.counter f key field with
  | .ok n =>
    if CoordStore.fitsInt64 (n + 1) then
      (f.insert field (toString (n + 1))).insert updatedField time.offsetText
    else f
  | .error _ => f

/-- What an operation makes of the fields under a key at a time. -/
def edit (key : String) : TrackerOperation → Timestamp → Fields → Fields
  | .create totalFiles, time, f =>
    (((((f.insertIfNew statusField ExecutionStatus.pending.name).insertIfNew completedField "0")
      |>.insertIfNew failedField "0").insertIfNew createdField time.offsetText)
      |>.insert totalField (toString totalFiles)).insert updatedField time.offsetText
  | .update value, time, f =>
    match value.resolve with
    | .ok status => (f.insert statusField status.name).insert updatedField time.offsetText
    | .error _ => f
  | .increment c, time, f => countUp key c.field time (seed time f)
  | .delete, _, _ => ∅

end TrackerOperation

section Fields

variable {f : Fields} {field other value : String}

theorem insertIfNew_of_contains (h : f.contains field) : f.insertIfNew field value = f := by
  refine Std.ExtTreeMap.ext_getElem? fun k => ?_
  rw [Std.ExtTreeMap.getElem?_insertIfNew, if_neg fun hk => hk.2 h]

theorem insertIfNew_of_not_contains (h : f.contains field = false) :
    f.insertIfNew field value = f.insert field value := by
  refine Std.ExtTreeMap.ext_getElem? fun k => ?_
  rw [Std.ExtTreeMap.getElem?_insertIfNew, Std.ExtTreeMap.getElem?_insert]
  simp only [Std.ExtTreeMap.mem_iff_contains, h, Bool.false_eq_true, not_false_eq_true, and_true]

theorem getElem?_insertIfNew_self :
    (f.insertIfNew field value)[field]? = some (f[field]?.getD value) := by
  cases hcontains : f.contains field with
  | true =>
    rw [insertIfNew_of_contains hcontains]
    rw [Std.ExtTreeMap.contains_eq_isSome_getElem?] at hcontains
    obtain ⟨old, hold⟩ := Option.isSome_iff_exists.mp hcontains
    rw [hold, Option.getD_some]
  | false =>
    rw [insertIfNew_of_not_contains hcontains, Std.ExtTreeMap.getElem?_insert_self]
    rw [Std.ExtTreeMap.contains_eq_isSome_getElem?, Option.isSome_eq_false_iff,
      Option.isNone_iff_eq_none] at hcontains
    rw [hcontains, Option.getD_none]

theorem getElem?_insertIfNew_of_ne (h : other ≠ field) :
    (f.insertIfNew other value)[field]? = f[field]? := by
  rw [Std.ExtTreeMap.getElem?_insertIfNew]
  simp only [Std.LawfulEqOrd.compare_eq_iff_eq, h, false_and, if_false]

end Fields

/-! ### Fields that an edit leaves or sets -/

namespace TrackerOperation

variable {op : TrackerOperation} {key field : String} {time : Timestamp} {f : Fields}

/-- The first calls of an increment write the status and the time of creation only. -/
theorem getElem?_seed (hstatus : statusField ≠ field) (hcreated : createdField ≠ field) :
    (seed time f)[field]? = f[field]? := by
  unfold seed
  split
  · rfl
  · rw [getElem?_insertIfNew_of_ne hcreated, getElem?_insertIfNew_of_ne hstatus]

theorem seed_of_contains (time : Timestamp) (h : f.contains statusField) : seed time f = f :=
  if_pos h

/-- The later calls of an increment write its counter and the time of change only. -/
theorem getElem?_countUp {counter : String} (hcounter : counter ≠ field)
    (hupdated : updatedField ≠ field) : (countUp key counter time f)[field]? = f[field]? := by
  unfold countUp
  split
  · split
    · rw [getElem?_insert_of_ne hupdated, getElem?_insert_of_ne hcounter]
    · rfl
  · rfl

/-- The time of change is that of the operation, or nothing has changed. -/
theorem countUp_updated (key counter : String) (time : Timestamp) (f : Fields) :
    (countUp key counter time f)[updatedField]? = some time.offsetText ∨
      countUp key counter time f = f := by
  unfold countUp
  split
  · split
    · exact .inl Std.ExtTreeMap.getElem?_insert_self
    · exact .inr rfl
  · exact .inr rfl

theorem contains_status_seed : (seed time f).contains statusField := by
  unfold seed
  split
  · assumption
  · simp [Std.ExtTreeMap.contains_insertIfNew]

/-- There is a status after every edit by an operation that writes. -/
theorem contains_status_edit (key : String) (time : Timestamp) (f : Fields) (hop : op.Writes) :
    (op.edit key time f).contains statusField := by
  cases op with
  | create totalFiles =>
    simp [edit, Std.ExtTreeMap.contains_insert, Std.ExtTreeMap.contains_insertIfNew]
  | update value =>
    obtain ⟨status, hvalue⟩ := hop
    simp [edit, hvalue, Std.ExtTreeMap.contains_insert]
  | increment c =>
    have hsame : (countUp key c.field time (seed time f))[statusField]? =
        (seed time f)[statusField]? := getElem?_countUp (by cases c <;> decide) (by decide)
    rw [edit, Std.ExtTreeMap.contains_eq_isSome_getElem?, hsame,
      ← Std.ExtTreeMap.contains_eq_isSome_getElem?]
    exact contains_status_seed
  | delete => exact hop.elim

end TrackerOperation

/-! ### What is known while an operation runs -/

/-- The times that were read. -/
def Log.told (log : Log) : List Timestamp :=
  log.filterMap fun
    | ⟨_, .time, now⟩ => some now
    | _ => none

namespace Tracker

variable {key : String} {finish later : Moment} {f f' : Fields} {times : List Timestamp}
  {p : Point} {s' : Shared} {O : Overflow → Point → Prop}

/-- The hash under a key has these fields and stays there until an operation has finished;
    and these times were read. -/
structure Editing (key : String) (finish : Moment) (f : Fields) (times : List Timestamp)
    (p : Point) : Prop where
  available : p.shared.coord.available = true
  hash : p.shared.coord.hash p.shared.now key = .ok f
  lasts : p.shared.coord.Lasts p.shared.now finish key
  told : p.log.told = times

namespace Editing

theorem hash_later (h : Editing key finish f times p) (hnow : p.shared.now ≤ later)
    (hlater : later ≤ finish) : p.shared.coord.hash later key = .ok f := by
  rw [CoordStore.hash_of_lasts hnow (h.lasts.of_le hlater)]
  exact h.hash

theorem lasts_later (h : Editing key finish f times p) (hnow : p.shared.now ≤ later)
    (hlater : later ≤ finish) : p.shared.coord.Lasts later finish key :=
  h.lasts.from_later hnow hlater

/-- A call that writes the hash leaves the deadline. -/
theorem puts {call : CoordCall} {reply : Except CoordError call.Result}
    (h : Editing key finish f times p) (hnow : p.shared.now ≤ s'.now) (hfinish : s'.now ≤ finish)
    (hcoord : p.shared.coord.putHash s'.now key f' = s'.coord) :
    Editing key finish f' times (p.asked s' (.coord call) reply) where
  available := hcoord ▸ h.available
  hash := by
    show s'.coord.hash s'.now key = _
    rw [← hcoord]
    exact CoordStore.hash_putHash
  lasts := by
    show s'.coord.Lasts s'.now finish key
    intro t ht
    rw [← hcoord, CoordStore.deadline?_putHash] at ht
    exact h.lasts_later hnow hfinish t ht
  told := h.told

/-- A call that writes nothing leaves everything. -/
theorem keeps {call : CoordCall} {reply : Except CoordError call.Result}
    (h : Editing key finish f times p) (hnow : p.shared.now ≤ s'.now) (hfinish : s'.now ≤ finish)
    (hcoord : p.shared.coord = s'.coord) :
    Editing key finish f times (p.asked s' (.coord call) reply) where
  available := hcoord ▸ h.available
  hash := hcoord ▸ h.hash_later hnow hfinish
  lasts := hcoord ▸ h.lasts_later hnow hfinish
  told := h.told

/-- A call that overflows changes nothing. -/
theorem stopped (h : Editing key finish f times p) (hnow : p.shared.now ≤ s'.now)
    (hfinish : s'.now ≤ finish) (hcoord : p.shared.coord = s'.coord) :
    Editing key finish f times (p.stopped s') where
  available := hcoord ▸ h.available
  hash := hcoord ▸ h.hash_later hnow hfinish
  lasts := hcoord ▸ h.lasts_later hnow hfinish
  told := h.told

end Editing

/-- An operation has made its edit of the fields under a key, as far as these are still
    there. -/
structure Edited (key : String) (op : TrackerOperation) (f : Fields) (p : Point) : Prop where
  available : p.shared.coord.available = true
  hash : (p.shared.coord.live? p.shared.now key).isSome →
    p.shared.coord.hash p.shared.now key = .ok (p.log.told.foldr (op.edit key) f)

theorem Editing.edited {op : TrackerOperation} (h : Editing key finish f' times p)
    (hf : f' = times.foldr (op.edit key) f) : Edited key op f p where
  available := h.available
  hash _ := by rw [h.hash, h.told, hf]

/-! ### Calls -/

/-- A call that cannot fail is carried out on the hash, or it overflows. -/
theorem edits_call {call : CoordCall} {Q : Except CoordError call.Result → Point → Prop}
    (h : Editing key finish f times p)
    (hok : ∀ v s', p.shared.now ≤ s'.now → s'.now ≤ finish →
      p.shared.coord.hash s'.now key = .ok f →
      p.shared.coord.perform s'.now call = .ok (.ok v, s'.coord) →
      Q (.ok v) (p.asked s' (.coord call) (.ok v)))
    (herror : ∀ e s', p.shared.now ≤ s'.now → s'.now ≤ finish →
      p.shared.coord.hash s'.now key = .ok f →
      p.shared.coord.perform s'.now call = .ok (.error e, s'.coord) →
      Q (.error e) (p.asked s' (.coord call) (.error e)))
    (hstopped : ∀ o s', p.shared.coord.hash s'.now key = .ok f →
      p.shared.coord.perform s'.now call = .error o →
      Editing key finish f times (p.stopped s') → O o (p.stopped s')) :
    servingUntil .never finish O (.coord call) Q p := by
  refine ⟨fun reply s' hs hfinish => ?_, fun o s' hs hfinish => ?_⟩
  · have hhash := h.hash_later hs.now_le hfinish
    rcases hs.answered with hp | ⟨⟨e, hfault, -⟩, -⟩
    · cases reply with
      | ok v => exact hok v s' hs.now_le hfinish hhash hp
      | error e => exact herror e s' hs.now_le hfinish hhash hp
    · exact hfault.elim
  · have hhash := h.hash_later hs.now_le hfinish
    exact hstopped o s' hhash hs.coord_error (h.stopped hs.now_le hfinish hs.stopped.1.symm)

theorem edits_setFields {fields : List (String × String)}
    {Q : Except CoordError Unit → Point → Prop} (h : Editing key finish f times p)
    (hQ : ∀ p', Editing key finish (fields.foldl (fun f p => f.insert p.1 p.2) f) times p' →
      Q (.ok ()) p') :
    servingUntil .never finish O (.coord (.setFields key fields)) Q p := by
  refine edits_call h (fun v s' hnow hfinish hhash hp => ?_)
    (fun e s' _ _ hhash hp => ?_) fun o s' hhash hp => ?_
  all_goals rw [CoordStore.perform_setFields_of_hash h.available hhash] at hp
  · obtain ⟨-, hcoord⟩ := Prod.mk.inj (Except.ok.inj hp)
    exact hQ _ (h.puts hnow hfinish hcoord)
  · cases hp
  · cases hp

theorem edits_setNewField {field value : String} {Q : Except CoordError Bool → Point → Prop}
    (h : Editing key finish f times p)
    (hQ : ∀ p', Editing key finish (f.insertIfNew field value) times p' →
      Q (.ok (!f.contains field)) p') :
    servingUntil .never finish O (.coord (.setNewField key field value)) Q p := by
  refine edits_call h (fun v s' hnow hfinish hhash hp => ?_)
    (fun e s' _ _ hhash hp => ?_) fun o s' hhash hp => ?_
  all_goals
    rw [CoordStore.perform_setNewField_of_hash h.available hhash] at hp
    cases hcontains : f.contains field
  all_goals simp only [hcontains, if_true, Bool.false_eq_true, if_false] at hp hQ
  -- Only a field that is not there is written; the reply says which it was.
  · obtain ⟨hv, hcoord⟩ := Prod.mk.inj (Except.ok.inj hp)
    cases hv
    rw [insertIfNew_of_not_contains hcontains] at hQ
    exact hQ _ (h.puts hnow hfinish hcoord)
  · obtain ⟨hv, hcoord⟩ := Prod.mk.inj (Except.ok.inj hp)
    cases hv
    rw [insertIfNew_of_contains hcontains] at hQ
    exact hQ _ (h.keeps hnow hfinish hcoord)
  all_goals cases hp

theorem edits_getFields {Q : Except CoordError Fields → Point → Prop}
    (h : Editing key finish f times p)
    (hQ : ∀ p', Editing key finish f times p' → Q (.ok f) p') :
    servingUntil .never finish O (.coord (.getFields key)) Q p := by
  refine edits_call h (fun v s' hnow hfinish hhash hp => ?_)
    (fun e s' _ _ hhash hp => ?_) fun o s' hhash hp => ?_
  all_goals rw [CoordStore.perform_getFields_of_hash h.available hhash] at hp
  · obtain ⟨hv, hcoord⟩ := Prod.mk.inj (Except.ok.inj hp)
    cases hv
    exact hQ _ (h.keeps hnow hfinish hcoord)
  · cases hp
  · cases hp

/-- An increment counts up; it fails if its counter is no number, and overflows if that is
    full. -/
theorem edits_increment {field : String} {Q : Except CoordError Int → Point → Prop}
    (h : Editing key finish f times p)
    (hQ : ∀ n p', CoordStore.counter f key field = .ok n → CoordStore.fitsInt64 (n + 1) = true →
      Editing key finish (f.insert field (toString (n + 1))) times p' → Q (.ok (n + 1)) p')
    (hE : ∀ e p', CoordStore.counter f key field = .error e → Editing key finish f times p' →
      Q (.error e) p')
    (hO : ∀ n p', CoordStore.counter f key field = .ok n → CoordStore.fitsInt64 (n + 1) = false →
      Editing key finish f times p' → O .count p') :
    servingUntil .never finish O (.coord (.increment key field 1)) Q p := by
  refine edits_call h (fun v s' hnow hfinish hhash hp => ?_)
    (fun e s' hnow hfinish hhash hp => ?_) fun o s' hhash hp hstopped => ?_
  all_goals
    simp only [CoordStore.perform, CoordStore.increment, h.available, if_true, hhash] at hp
    cases hcounter : CoordStore.counter f key field
  all_goals simp only [hcounter] at hp
  · cases hp
  · split at hp
    · rename_i n hfits
      obtain ⟨hv, hcoord⟩ := Prod.mk.inj (Except.ok.inj hp)
      cases hv
      exact hQ _ _ hcounter hfits (h.puts hnow hfinish hcoord)
    · cases hp
  · obtain ⟨hv, hcoord⟩ := Prod.mk.inj (Except.ok.inj hp)
    cases hv
    exact hE _ _ hcounter (h.keeps hnow hfinish hcoord)
  · split at hp <;> cases hp
  · cases hp
  · split at hp
    · cases hp
    · rename_i n hfits
      cases hp
      exact hO _ _ hcounter (by simpa using hfits) hstopped

/-- The last call gives the record a deadline, which may be in the past already. -/
theorem edits_expire {op : TrackerOperation} {ttl : Duration}
    {Q : Except CoordError Bool → Point → Prop} (h : Editing key finish f' times p)
    (hf : f' = times.foldr (op.edit key) f) (hQ : ∀ v p', Edited key op f p' → Q (.ok v) p') :
    servingUntil .never finish (fun _ => Edited key op f) (.coord (.expire key ttl)) Q p := by
  refine edits_call h (fun v s' hnow hfinish hhash hp => ?_)
    (fun e s' hnow hfinish hhash hp => ?_) fun o s' hhash hp hstopped => hstopped.edited hf
  -- The record keeps its fields, unless it is gone with its new deadline.
  · refine hQ _ _ ⟨(CoordStore.perform_available hp).trans h.available, fun hlive => ?_⟩
    obtain ⟨e', he'⟩ := Option.isSome_iff_exists.mp hlive
    obtain ⟨hentry, hlive⟩ := CoordStore.live?_eq_some.mp he'
    have htold : (p.asked s' (.coord (.expire key ttl)) (.ok v)).log.told = times := h.told
    rw [htold, ← hf, ← hhash]
    rcases CoordStore.perform_expire_cases hp with
      ⟨⟨_, hv⟩, -⟩ | ⟨e, he, -, hcoord⟩ | ⟨-, -, hcoord⟩
    · cases hv
    · simp only [Point.asked, hcoord, CoordStore.entries_put_self] at hentry hlive ⊢
      cases hentry
      exact CoordStore.hash_put_of_live he hlive
    · simp only [Point.asked, hcoord, CoordStore.entries_drop_self] at hentry
      cases hentry
  · rcases CoordStore.perform_expire_cases hp with
      ⟨-, hoff, -⟩ | ⟨_, -, hv, -⟩ | ⟨-, hv, -⟩
    · rw [h.available] at hoff
      cases hoff
    · cases hv
    · cases hv

theorem edits_time {Q : Timestamp → Point → Prop} (h : Editing key finish f times p)
    (hQ : ∀ now p', Editing key finish f (now :: times) p' → Q now p') :
    servingUntil .never finish O .time Q p := by
  refine servingUntil_other (by simp) fun now s' hnow hfinish hcoord => hQ _ _ ?_
  constructor
  case available => exact hcoord ▸ h.available
  case hash => exact hcoord ▸ h.hash_later hnow hfinish
  case lasts => exact hcoord ▸ h.lasts_later hnow hfinish
  case told => exact congrArg (now :: ·) h.told

end Tracker

/-! ### Operations -/

/-- The fields after the first calls of an operation that starts a record. -/
def TrackerOperation.started : TrackerOperation → Timestamp → Fields → Fields
  | .create _, time, f =>
    (((f.insertIfNew statusField ExecutionStatus.pending.name).insertIfNew completedField "0")
      |>.insertIfNew failedField "0").insertIfNew createdField time.offsetText
  | _, time, f => seed time f

/-- What is known at a cue of an operation that makes its edit of the fields `f`. -/
def Cue.Edits (key : String) (finish : Moment) (op : TrackerOperation) (f : Fields) :
    Cue → Point → Prop
  | .start => Tracker.Editing key finish f []
  | .timed now => Tracker.Editing key finish f [now]
  | .seeded now new => fun p => new = !f.contains statusField ∧
      Tracker.Editing key finish (f.insertIfNew statusField ExecutionStatus.pending.name) [now] p
  | .startedOne now => Tracker.Editing key finish
      ((f.insertIfNew statusField ExecutionStatus.pending.name).insertIfNew completedField "0")
      [now]
  | .startedBoth now => Tracker.Editing key finish
      (((f.insertIfNew statusField ExecutionStatus.pending.name).insertIfNew completedField "0")
        |>.insertIfNew failedField "0") [now]
  | .stamped now => Tracker.Editing key finish (op.started now f) [now]
  | .counted now _ => fun p => ∃ f', Tracker.Editing key finish f' [now] p ∧
      f'.insert updatedField now.offsetText = op.edit key now f
  | .written _ => fun p => ∃ now, Tracker.Editing key finish (op.edit key now f) [now] p
  | .looked .. => fun p => ∃ now, Tracker.Editing key finish (op.edit key now f) [now] p
  | .over _ => Tracker.Edited key op f
  | .failed => Tracker.Edited key op f

namespace Tracker

variable {t : Tracker} {workflowId executionId : String} {op : TrackerOperation} {cue : Cue}
  {r : Request} {next : r.Reply → Cue}

/-- An increment of a record that is there, or was started, makes the rest of its edit; if its
    counter cannot go up, there is no rest. -/
theorem edits_count {c : Counter} {now : Timestamp} {Q : Except CoordError Int → Point → Prop}
    (h : Editing key finish (TrackerOperation.seed now f) [now] p)
    (hQ : ∀ (n : Int) p', (Cue.counted now n.toNat).Edits key finish (.increment c) f p' →
      Q (.ok n) p')
    (hE : ∀ e p', Edited key (.increment c) f p' → Q (.error e) p') :
    servingUntil .never finish (fun _ => Edited key (.increment c) f)
      (.coord (.increment key c.field 1)) Q p := by
  refine edits_increment h (fun n p hcounter hfits h => ?_) (fun e p hcounter h => hE e p ?_)
    fun n p hcounter hfits h => ?_
  · refine hQ _ p ⟨_, h, ?_⟩
    simp [TrackerOperation.edit, TrackerOperation.countUp, hcounter, hfits]
  · refine h.edited ?_
    simp [TrackerOperation.edit, TrackerOperation.countUp, hcounter]
  · refine h.edited ?_
    simp [TrackerOperation.edit, TrackerOperation.countUp, hcounter, hfits]

/-- Every request of a script brings the edit on. -/
theorem edits_asks {Q : r.Reply → Point → Prop} (hop : op ≠ .delete)
    (hasks : t.Asks key op cue r next) (h : cue.Edits key finish op f p)
    (hQ : ∀ reply p', (next reply).Edits key finish op f p' → Q reply p') :
    servingUntil .never finish (fun _ => Edited key op f) r Q p := by
  cases hasks with
  | time => exact edits_time h fun now p h => hQ now p h
  | seed => exact edits_setNewField h fun p h => hQ _ p ⟨rfl, h⟩
  | startCompleted => exact edits_setNewField h.2 fun p h => hQ _ p h
  | startFailed | stamp => exact edits_setNewField h fun p h => hQ _ p h
  | total => exact edits_setFields h fun p h => hQ _ p ⟨_, h⟩
  | @mark value status now hvalue =>
    refine edits_setFields h fun p h => hQ _ p ⟨now, ?_⟩
    simp only [TrackerOperation.edit, hvalue]
    exact h
  | stampNew =>
    obtain ⟨hnew, h⟩ := h
    refine edits_setNewField h fun p h => hQ _ p ?_
    -- The status was new, so that the seed has put all its fields.
    have habsent : f.contains statusField = false := by simpa using hnew.symm
    simpa [Cue.orFailed, Cue.Edits, TrackerOperation.started, TrackerOperation.seed, habsent]
      using h
  | countNew => exact edits_count h (fun _ p h => hQ _ p h) fun _ p h => hQ _ p h
  | count =>
    obtain ⟨hold, h⟩ := h
    have hthere : f.contains statusField = true := by simpa using hold.symm
    rw [insertIfNew_of_contains hthere, ← TrackerOperation.seed_of_contains _ hthere] at h
    exact edits_count h (fun _ p h => hQ _ p h) fun _ p h => hQ _ p h
  | @touch c now sum =>
    obtain ⟨f', h, hrest⟩ := h
    refine edits_setFields h fun p h => hQ _ p ⟨now, ?_⟩
    rw [← hrest]
    exact h
  | look =>
    obtain ⟨now, h⟩ := h
    exact edits_getFields h fun p h => hQ _ p ⟨now, h⟩
  | keepActive | keepMarked | keepCounted =>
    obtain ⟨now, h⟩ := h
    exact edits_expire h rfl fun v p h => hQ _ p h
  | delete => exact absurd rfl hop

/-- Every operation but a deletion makes its edit, however far it comes. -/
theorem edits (hop : op ≠ .delete)
    (h : Editing (Key.execution workflowId executionId) finish f [] p) :
    (t.program workflowId executionId op).ensures
      (servingUntil .never finish fun _ => Edited (Key.execution workflowId executionId) op f)
      (fun _ => Edited (Key.execution workflowId executionId) op f) p := by
  refine (t.follows workflowId executionId op).of_following
    (A := Cue.Edits (Key.execution workflowId executionId) finish op f) h ?_ ?_
  · intro cue r next p Q hasks h hQ
    exact edits_asks hop hasks h hQ
  · intro result cue p hends h
    cases hends with
    | refused => exact Editing.edited h rfl
    | _ => exact h

/-- An operation that runs alone on a store that never fails has made its edit at its end, if
    what it found has not gone away until then. -/
theorem ends_edited {op : TrackerOperation} {s : Shared} {out : Checked op.Result} {q : Point}
    (hop : op ≠ .delete) (havailable : s.coord.available = true)
    (hhash : s.coord.hash s.now (Key.execution workflowId executionId) = .ok f)
    (hlasts : s.coord.Lasts s.now q.shared.now (Key.execution workflowId executionId))
    (hends : (t.program workflowId executionId op).Ends .never ⟨s, []⟩ out q) :
    Edited (Key.execution workflowId executionId) op f q := by
  obtain ⟨hok, herror⟩ := hends.of_ensures_until (Nat.le_refl _)
    (edits (t := t) hop ⟨havailable, hhash, hlasts, rfl⟩)
  cases out with
  | ok result => exact hok result rfl
  | error o => exact herror o rfl

end Tracker

end ExecutionControl
