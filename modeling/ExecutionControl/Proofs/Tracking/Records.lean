import ExecutionControl.Proofs.Tracking.Counters
import ExecutionControl.Proofs.Tracking.Stages

/-! # Live records as hashes

    What the hash under a key says of an execution, and what each call of a tracker does to
    it. `Carries` relates the hash to the record that it stands for, if it stands for one:
    the status is there and has a name, and a number that is not there is zero. A call that
    an operation makes at its stage answers and leaves a hash that stands for a record
    again, or none (`request_effect`); so that a lookup finds it (`get_ends`).
-/

namespace ExecutionControl

open StatusRecord

theorem ExecutionStatus.parse_name (status : ExecutionStatus) :
    ExecutionStatus.parse status.name = .ok status := by
  cases status <;> rfl

theorem getElem?_insert_of_ne {f : Fields} {field other value : String} (h : other ≠ field) :
    (f.insert other value)[field]? = f[field]? := by
  simp only [Std.ExtTreeMap.getElem?_insert, Std.LawfulEqOrd.compare_eq_iff_eq, h, if_false]

/-- What a live record says of an execution. -/
structure Tracked where
  status : ExecutionStatus := .pending
  counts : Counter → Nat := fun _ => 0
  total : Nat := 0

namespace Tracked

/-- The record after a request by an operation. -/
def after (x : Tracked) : TrackerOperation → Request → Tracked
  | .create totalFiles, .coord (.setFields ..) => { x with total := totalFiles }
  | .update value, .coord (.setFields ..) =>
    match value.resolve with
    | .ok status => { x with status }
    | .error _ => x
  | .increment c, .coord (.increment ..) =>
    { x with counts := fun other => if other = c then x.counts c + 1 else x.counts other }
  | _, _ => x

/-- The numbers that the fields of a hash show. -/
structure Numbers (x : Tracked) (f : Fields) : Prop where
  count : ∀ c : Counter, Shows f c.field (x.counts c)
  total : Shows f totalField x.total
  count_le : ∀ c, x.counts c ≤ Text.maxInt64
  total_le : x.total ≤ Text.maxInt64

variable {x : Tracked} {f : Fields} {field value : String} {status : ExecutionStatus}

theorem numbers_empty : ({} : Tracked).Numbers ∅ where
  count _ := .inl ⟨by simp, rfl⟩
  total := .inl ⟨by simp, rfl⟩
  count_le _ := Nat.zero_le _
  total_le := Nat.zero_le _

/-- A field that is not a number may be set. -/
theorem Numbers.insert_of_ne (h : x.Numbers f) (hcount : ∀ c : Counter, field ≠ c.field)
    (htotal : field ≠ totalField) : x.Numbers (f.insert field value) where
  count c := (h.count c).insert_of_ne (hcount c)
  total := h.total.insert_of_ne htotal
  count_le := h.count_le
  total_le := h.total_le

/-- The time of change is no number. -/
theorem Numbers.touch (h : x.Numbers f) : x.Numbers (f.insert updatedField value) :=
  h.insert_of_ne (by rintro (_ | _) <;> decide) (by decide)

/-- The status is no number. -/
theorem Numbers.mark (h : x.Numbers f) :
    ({ x with status } : Tracked).Numbers (f.insert statusField value) := by
  have hsame : x.Numbers (f.insert statusField value) :=
    h.insert_of_ne (by rintro (_ | _) <;> decide) (by decide)
  exact ⟨hsame.count, hsame.total, hsame.count_le, hsame.total_le⟩

/-- A counter that is not there may be set to zero. -/
theorem Numbers.startCounter (h : x.Numbers f) (c : Counter) (hnone : f[c.field]? = none) :
    x.Numbers (f.insert c.field "0") where
  count c' := by
    by_cases hc : c.field = c'.field
    · have hzero : x.counts c' = 0 := by simpa [Shows, ← hc, hnone] using h.count c'
      have htext : ("0" : String) = toString 0 := by decide
      rw [hzero, ← hc, htext]
      exact shows_insert
    · exact (h.count c').insert_of_ne hc
  total := h.total.insert_of_ne (by cases c <;> decide)
  count_le := h.count_le
  total_le := h.total_le

/-- A counter goes up by one. -/
theorem Numbers.count_up (h : x.Numbers f) (c : Counter) (hle : x.counts c + 1 ≤ Text.maxInt64)
    (key : String) : (x.after (.increment c) (.coord (.increment key c.field 1))).Numbers
      (f.insert c.field (toString (x.counts c + 1))) where
  count c' := by
    by_cases hc : c' = c
    · subst hc
      simpa [after] using shows_insert
    · have hne : c.field ≠ c'.field := fun heq => hc (Counter.field_injective heq).symm
      simpa [after, hc] using (h.count c').insert_of_ne hne
  total := h.total.insert_of_ne (by cases c <;> decide)
  count_le c' := by
    by_cases hc : c' = c
    · simpa [after, hc] using hle
    · simpa [after, hc] using h.count_le c'
  total_le := h.total_le

/-- The number of files is set. -/
theorem Numbers.setTotal (h : x.Numbers f) {n : Nat} (hn : n ≤ Text.maxInt64) :
    ({ x with total := n } : Tracked).Numbers (f.insert totalField (toString n)) where
  count c := (h.count c).insert_of_ne (by cases c <;> decide)
  total := shows_insert
  count_le := h.count_le
  total_le := hn

end Tracked

/-! ### The hash of a record -/

/-- The hash under a key has these fields, and stands for this record, if for one. -/
structure CoordStore.Carries (s : CoordStore) (now : Moment) (key : String) (f : Fields)
    (record : Option Tracked) : Prop where
  hash : s.hash now key = .ok f
  live : (s.live? now key).isSome = record.isSome
  status : ∀ x, record = some x → f[statusField]? = some x.status.name
  numbers : (record.getD {}).Numbers f

namespace CoordStore

variable {s s' : CoordStore} {now later : Moment} {key : String} {f f' : Fields} {x : Tracked}
  {record : Option Tracked}

theorem carries_none (h : s.live? now key = none) : s.Carries now key ∅ none where
  hash := hash_of_absent h
  live := by simp [h]
  status := nofun
  numbers := Tracked.numbers_empty

/-- A record stands in a hash that is written. -/
theorem carries_putHash (hstatus : f[statusField]? = some x.status.name) (hnumbers : x.Numbers f) :
    (s.putHash now key f).Carries now key f (some x) where
  hash := hash_putHash
  live := by simp [live?_putHash]
  status y hy := by
    cases hy
    exact hstatus
  numbers := hnumbers

/-- Where there is no record there are no fields. -/
theorem Carries.eq_empty (h : s.Carries now key f none) :
    s.live? now key = none ∧ f = ∅ := by
  have hnone : s.live? now key = none := by simpa using h.live
  have hhash := h.hash
  rw [hash_of_absent hnone] at hhash
  exact ⟨hnone, (Except.ok.inj hhash).symm⟩

/-- Time that passes leaves the record, or takes it away. -/
theorem Carries.at_later (h : s.Carries now key f record) (hlater : now ≤ later) :
    ∃ f' record', s.Carries later key f' record' ∧ (record' = record ∨ record' = none) := by
  cases hlive : s.live? later key with
  | none => exact ⟨∅, none, carries_none hlive, .inr rfl⟩
  | some e =>
    have hbefore := live?_eq_of_later hlater hlive
    refine ⟨f, record, ⟨?_, ?_, h.status, h.numbers⟩, .inl rfl⟩
    · rw [← h.hash]
      simp [CoordStore.hash, datum?, hlive, hbefore]
    · rw [← h.live, hlive, hbefore]

/-! ### Calls on a hash -/

section Calls

variable (havailable : s.available = true) (hhash : s.hash now key = .ok f)

include havailable hhash

theorem perform_setFields_of_hash (fields : List (String × String)) :
    s.perform now (.setFields key fields) =
      .ok (.ok (), s.putHash now key (fields.foldl (fun f p => f.insert p.1 p.2) f)) := by
  simp [perform, setFields, whenAvailable, havailable, hhash]

theorem perform_setNewField_of_hash (field value : String) :
    s.perform now (.setNewField key field value) =
      if f.contains field then .ok (.ok false, s)
      else .ok (.ok true, s.putHash now key (f.insert field value)) := by
  simp only [perform, setNewField, whenAvailable, havailable, hhash, if_true]
  split <;> rfl

theorem perform_getFields_of_hash : s.perform now (.getFields key) = .ok (.ok f, s) := by
  simp [perform, getFields, whenAvailable, havailable, hhash]

end Calls

/-- An increment that answers has the next number as its sum. -/
theorem perform_increment_of_hash {field : String} {n : Nat}
    {reply : Except CoordError Int} (havailable : s.available = true)
    (hhash : s.hash now key = .ok f) (hshows : Shows f field n) (hn : n ≤ Text.maxInt64)
    (hp : s.perform now (.increment key field 1) = .ok (reply, s')) :
    reply = .ok ((n + 1 : Nat) : Int) ∧ n + 1 ≤ Text.maxInt64 ∧
      s' = s.putHash now key (f.insert field (toString (n + 1))) := by
  simp only [perform, increment, havailable, if_true, hhash, hshows.counter hn] at hp
  split at hp <;> cases hp
  rename_i hfits
  exact ⟨rfl, succ_le_maxInt64 hfits, rfl⟩

/-! ### What calls do to a record -/

/-- There is a status wherever there is a record, and no field where there is none. -/
theorem Carries.contains_status (h : s.Carries now key f record) :
    f.contains statusField = record.isSome := by
  cases record with
  | none =>
    obtain ⟨-, rfl⟩ := h.eq_empty
    simp
  | some x => simp [Std.ExtTreeMap.contains_eq_isSome_getElem?, h.status x rfl]

/-- After the first call of an operation that starts a record there is one. -/
theorem Carries.seed {reply : Except CoordError Bool} (h : s.Carries now key f record)
    (havailable : s.available = true)
    (hp : s.perform now (.setNewField key statusField ExecutionStatus.pending.name) =
      .ok (reply, s')) :
    ∃ v f', reply = .ok v ∧ s'.Carries now key f' (some (record.getD {})) := by
  rw [perform_setNewField_of_hash havailable h.hash, h.contains_status] at hp
  cases record with
  | some x =>
    cases hp
    exact ⟨_, f, rfl, h⟩
  | none =>
    cases hp
    exact ⟨_, _, rfl, carries_putHash (by simp) (Tracked.Numbers.mark h.numbers)⟩

/-- A field other than the status may be set if it is new. -/
theorem Carries.setNewField {field value : String} {reply : Except CoordError Bool}
    (h : s.Carries now key f (some x)) (havailable : s.available = true)
    (hfield : field ≠ statusField)
    (hnumbers : f[field]? = none → x.Numbers (f.insert field value))
    (hp : s.perform now (.setNewField key field value) = .ok (reply, s')) :
    ∃ v f', reply = .ok v ∧ s'.Carries now key f' (some x) := by
  rw [perform_setNewField_of_hash havailable h.hash] at hp
  split at hp <;> cases hp
  · exact ⟨_, f, rfl, h⟩
  · rename_i hnew
    rw [Std.ExtTreeMap.contains_eq_isSome_getElem?, Bool.not_eq_true,
      Option.isSome_eq_false_iff, Option.isNone_iff_eq_none] at hnew
    refine ⟨_, _, rfl, carries_putHash ?_ (hnumbers hnew)⟩
    rw [getElem?_insert_of_ne hfield]
    exact h.status x rfl

theorem Carries.setFields {fields : List (String × String)} {reply : Except CoordError Unit}
    (h : s.Carries now key f record) (x : Tracked) (havailable : s.available = true)
    (hp : s.perform now (.setFields key fields) = .ok (reply, s'))
    (hstatus : (fields.foldl (fun f p => f.insert p.1 p.2) f)[statusField]? = some x.status.name)
    (hnumbers : x.Numbers (fields.foldl (fun f p => f.insert p.1 p.2) f)) :
    reply = .ok () ∧ ∃ f', s'.Carries now key f' (some x) := by
  rw [perform_setFields_of_hash havailable h.hash] at hp
  cases hp
  exact ⟨rfl, _, carries_putHash hstatus hnumbers⟩

theorem Carries.increment {c : Counter} {reply : Except CoordError Int}
    (h : s.Carries now key f (some x)) (havailable : s.available = true)
    (hp : s.perform now (.increment key c.field 1) = .ok (reply, s')) :
    reply = .ok ((x.counts c + 1 : Nat) : Int) ∧ ∃ f', s'.Carries now key f'
      (some (x.after (.increment c) (.coord (.increment key c.field 1)))) := by
  obtain ⟨hreply, hle, rfl⟩ := perform_increment_of_hash havailable h.hash (h.numbers.count c)
    (h.numbers.count_le c) hp
  refine ⟨hreply, _, carries_putHash ?_ (Tracked.Numbers.count_up h.numbers c hle key)⟩
  rw [getElem?_insert_of_ne (by cases c <;> decide)]
  exact h.status x rfl

/-- A deadline may be in the past already. -/
theorem Carries.expire {ttl : Duration} {reply : Except CoordError Bool}
    (h : s.Carries now key f record) (havailable : s.available = true)
    (hp : s.perform now (.expire key ttl) = .ok (reply, s')) :
    ∃ v f' record', reply = .ok v ∧ s'.Carries now key f' record' ∧
      (record' = record ∨ record' = none) := by
  simp only [perform, CoordStore.expire, havailable, if_true] at hp
  split at hp
  · rename_i e he
    cases hdeadline : now.after ttl with
    | error o =>
      rw [hdeadline] at hp
      cases hp
    | ok t =>
      rw [hdeadline] at hp
      cases hp
      -- With a time to live of zero the record is gone at once.
      by_cases hlive : Entry.isLive ⟨e.datum, some t⟩ now
      · have hput : (s.put key ⟨e.datum, some t⟩).live? now key = some ⟨e.datum, some t⟩ :=
          live?_eq_some.mpr ⟨entries_put_self, hlive⟩
        refine ⟨_, f, record, rfl, ⟨?_, ?_, h.status, h.numbers⟩, .inl rfl⟩
        · exact (hash_put_of_live he hlive).trans h.hash
        · rw [← h.live, hput, he]
          rfl
      · have hgone : (s.put key ⟨e.datum, some t⟩).live? now key = none := by
          rw [live?_eq_none]
          intro e' he'
          rw [entries_put_self] at he'
          cases he'
          exact hlive
        exact ⟨_, ∅, none, rfl, carries_none hgone, .inr rfl⟩
  · cases hp
    exact ⟨_, ∅, none, rfl, carries_none (live?_of_absent entries_drop_self), .inr rfl⟩

theorem perform_delete_of_available {reply : Except CoordError Bool}
    (havailable : s.available = true) (hp : s.perform now (.delete key) = .ok (reply, s')) :
    ∃ v, reply = .ok v ∧ s'.Carries now key ∅ none := by
  simp only [perform, CoordStore.delete, whenAvailable, havailable, if_true] at hp
  cases hp
  exact ⟨_, rfl, carries_none (live?_of_absent entries_drop_self)⟩

end CoordStore

/-! ### What requests do to a record -/

/-- The sum that an operation on a counter has. -/
def TrackStage.sumOf (c : Counter) (op : TrackerOperation) (g : TrackStage) : Option Nat :=
  if op = .increment c then g.sum? else none

namespace Tracked

/-- What becomes of a record, if there is one, when an operation at stage `g` makes a request
    and comes to stage `g'`. -/
structure Effect (op : TrackerOperation) (g : TrackStage) (r : Request) (g' : TrackStage)
    (record record' : Option Tracked) : Prop where
  /-- A record that is there says what the request has made of it. -/
  after : ∀ x, record' = some x → x = (record.getD {}).after op r
  /-- A request that leaves no record is not one of those that write. -/
  absent : record' = none → g'.isMidway = false ∧ (∀ x : Tracked, x.after op r = x) ∧
    (g' = .fresh ∨ (∃ sum, g = .written sum) ∨ op = .delete)
  /-- An operation that comes by a sum has counted up to it. -/
  sums : ∀ c, g'.sumOf c op = g.sumOf c op ∧
      ((record.getD {}).after op r).counts c = (record.getD {}).counts c ∨
    g.sumOf c op = none ∧ g'.sumOf c op = some ((record.getD {}).counts c + 1) ∧
      ((record.getD {}).after op r).counts c = (record.getD {}).counts c + 1

variable {op : TrackerOperation} {g g' : TrackStage} {r : Request} {x : Tracked}
  {record record' : Option Tracked}

/-- A request that sets what is not counted. -/
theorem Effect.sets (hx : x = (record.getD {}).after op r)
    (hcounts : x.counts = (record.getD {}).counts) (hsum : g'.sum? = g.sum?) :
    Effect op g r g' record (some x) where
  after y hy := by
    cases hy
    exact hx
  absent := nofun
  sums c := .inl ⟨by simp [TrackStage.sumOf, hsum], by rw [← hx, hcounts]⟩

/-- A request that leaves the record as it is, or takes it away. -/
theorem Effect.keeps (hafter : ∀ x : Tracked, x.after op r = x) (hsum : g'.sum? = g.sum?)
    (hrecord : record' = record ∨ record' = none) (hmidway : g'.isMidway = false)
    (hstage : g' = .fresh ∨ (∃ sum, g = .written sum) ∨ op = .delete) :
    Effect op g r g' record record' where
  after y hy := by
    rcases hrecord with rfl | rfl
    · rw [hy, hafter]
      rfl
    · cases hy
  absent _ := ⟨hmidway, hafter, hstage⟩
  sums c := .inl ⟨by simp [TrackStage.sumOf, hsum], by rw [hafter]⟩

end Tracked

namespace CoordStore

variable {s s' : CoordStore} {now : Moment} {key : String} {f : Fields} {record : Option Tracked}
  {op : TrackerOperation} {g : TrackStage}

/-- A call that an operation may make succeeds on a store that can be reached, and leaves a
    hash that stands for a record again, or none. -/
theorem Carries.performs {call : CoordCall} {reply : Except CoordError call.Result}
    (h : s.Carries now key f record) (havailable : s.available = true)
    (hpermits : TrackStage.Permits key op g (.coord call)) (hfits : op.Fits)
    (hmidway : g.isMidway = true → record.isSome)
    (hp : s.perform now call = .ok (reply, s')) :
    ∃ v f' record', reply = .ok v ∧ s'.Carries now key f' record' ∧
      Tracked.Effect op g (.coord call) (g.after (.coord call) (.ok v)) record record' := by
  cases hpermits with
  | seed =>
    obtain ⟨v, f', rfl, h'⟩ := h.seed havailable hp
    refine ⟨v, f', _, rfl, h', .sets ?_ rfl rfl⟩
    cases op <;> rfl
  | startCounter c =>
    obtain ⟨x, rfl⟩ := Option.isSome_iff_exists.mp (hmidway rfl)
    obtain ⟨v, f', rfl, h'⟩ := h.setNewField havailable (by cases c <;> decide)
      (Tracked.Numbers.startCounter h.numbers c) hp
    exact ⟨v, f', _, rfl, h', .sets rfl rfl rfl⟩
  | stamp text =>
    obtain ⟨x, rfl⟩ := Option.isSome_iff_exists.mp (hmidway rfl)
    obtain ⟨v, f', rfl, h'⟩ := h.setNewField havailable (by decide)
      (fun _ => h.numbers.insert_of_ne (by rintro (_ | _) <;> decide) (by decide)) hp
    refine ⟨v, f', _, rfl, h', .sets ?_ rfl rfl⟩
    cases op <;> rfl
  -- What is written from here on leaves the status as it is.
  | @total totalFiles text =>
    obtain ⟨x, rfl⟩ := Option.isSome_iff_exists.mp (hmidway rfl)
    have hle : totalFiles ≤ Text.maxInt64 := Nat.le_pred_of_lt hfits
    have hstatus :
        ((f.insert totalField (toString totalFiles)).insert updatedField text)[statusField]? =
          some x.status.name := by
      rw [getElem?_insert_of_ne (by decide), getElem?_insert_of_ne (by decide)]
      exact h.status x rfl
    obtain ⟨rfl, f', h'⟩ := h.setFields { x with total := totalFiles } havailable hp
      hstatus (Tracked.Numbers.touch (h.numbers.setTotal hle))
    exact ⟨(), f', _, rfl, h', .sets rfl rfl rfl⟩
  | @touch c sum text =>
    obtain ⟨x, rfl⟩ := Option.isSome_iff_exists.mp (hmidway rfl)
    have hstatus : (f.insert updatedField text)[statusField]? = some x.status.name := by
      rw [getElem?_insert_of_ne (by decide)]
      exact h.status x rfl
    obtain ⟨rfl, f', h'⟩ := h.setFields x havailable hp hstatus h.numbers.touch
    exact ⟨(), f', _, rfl, h', .sets rfl rfl rfl⟩
  | @mark value status hvalue text =>
    have hstatus : ((f.insert statusField status.name).insert updatedField text)[statusField]? =
        some status.name := by
      rw [getElem?_insert_of_ne (by decide)]
      simp
    obtain ⟨rfl, f', h'⟩ := h.setFields { record.getD {} with status } havailable hp
      hstatus (Tracked.Numbers.touch (Tracked.Numbers.mark h.numbers))
    refine ⟨(), f', _, rfl, h', .sets ?_ rfl rfl⟩
    simp only [Tracked.after, hvalue]
  | count c =>
    obtain ⟨x, rfl⟩ := Option.isSome_iff_exists.mp (hmidway rfl)
    obtain ⟨rfl, f', h'⟩ := h.increment havailable hp
    refine ⟨_, f', _, rfl, h', ?_, nofun, fun c' => ?_⟩
    · rintro y hy
      cases hy
      rfl
    · by_cases hc : c' = c
      · subst hc
        exact .inr ⟨by simp [TrackStage.sumOf, TrackStage.sum?],
          by simp [TrackStage.sumOf, TrackStage.after, TrackStage.sum?],
          by simp [Tracked.after]⟩
      · exact .inl ⟨by simp [TrackStage.sumOf, Ne.symm hc], by simp [Tracked.after, hc]⟩
  | look =>
    rw [perform_getFields_of_hash havailable h.hash] at hp
    cases hp
    exact ⟨_, f, record, rfl, h,
      .keeps (by cases op <;> exact fun _ => rfl) rfl (.inl rfl) rfl (.inr (.inl ⟨_, rfl⟩))⟩
  | expire ttl =>
    obtain ⟨v, f', record', rfl, h', hrecord⟩ := h.expire havailable hp
    exact ⟨v, f', record', rfl, h',
      .keeps (by cases op <;> exact fun _ => rfl) rfl hrecord rfl (.inr (.inl ⟨_, rfl⟩))⟩
  | delete =>
    obtain ⟨v, rfl, h'⟩ := perform_delete_of_available havailable hp
    exact ⟨v, ∅, none, rfl, h', .keeps (fun _ => rfl) rfl (.inr rfl) rfl (.inr (.inr rfl))⟩

end CoordStore

namespace Shared

variable {s s' : Shared} {key : String} {f : Fields} {record : Option Tracked}
  {op : TrackerOperation} {g : TrackStage} {r : Request}

/-- While time passes until a step, the record lasts or goes away. -/
theorem record_passes (h : s.coord.Carries s.now key f record) (s' : Shared)
    (hnow : s.now ≤ s'.now) :
    ∃ f' before, s.coord.Carries s'.now key f' before ∧
      (s.RecordLasts key s' → before = record) := by
  obtain ⟨f', before, h', hsame⟩ := h.at_later hnow
  refine ⟨f', before, h', fun hlasts => ?_⟩
  rcases hsame with rfl | rfl
  · rfl
  · cases record with
    | none => rfl
    | some x =>
      have hlive := (hlasts h.live).1
      rw [h'.eq_empty.1] at hlive
      cases hlive

/-- A request that an operation may make does not fail on a store that never does. The record
    may go before it is answered, but not if it lasts, and it has to where more is to be
    written. -/
theorem request_effect {reply : r.Reply} (h : s.coord.Carries s.now key f record)
    (havailable : s.coord.available = true) (hpermits : TrackStage.Permits key op g r)
    (hfits : op.Fits)
    (hmidway : g.isMidway = true → record.isSome ∧ s.RecordLasts key s')
    (hs : s.Serves .never r (.ok reply) s') :
    ∃ f' before record', s'.coord.Carries s'.now key f' record' ∧
      g.after r reply ≠ .failed ∧ Tracked.Effect op g r (g.after r reply) before record' ∧
      (s.RecordLasts key s' → before = record ∧ (record.isSome → record'.isSome)) := by
  -- First the time passes until the answer.
  obtain ⟨f₁, before, h₁, hbefore⟩ := record_passes h s' hs.now_le
  have hlasting : ∀ {f' record'}, s'.coord.Carries s'.now key f' record' →
      s.RecordLasts key s' → before = record ∧ (record.isSome → record'.isSome) :=
    fun h' hlasts => ⟨hbefore hlasts, fun hsome =>
      h'.live ▸ (hlasts (h.live.trans hsome)).2⟩
  cases r with
  | coord call =>
    rcases hs.answered with hp | ⟨⟨_, hfault, -⟩, -⟩
    · obtain ⟨v, f', record', rfl, h', heffect⟩ := h₁.performs havailable hpermits hfits
        (fun hg => hbefore (hmidway hg).2 ▸ (hmidway hg).1) hp
      refine ⟨f', before, record', h', ?_, heffect, hlasting h'⟩
      cases hpermits <;> nofun
    · exact hfault.elim
  | time =>
    cases hpermits
    rw [← hs.coord_eq nofun] at h₁
    refine ⟨f₁, before, before, h₁, nofun, ?_, hlasting h₁⟩
    exact .keeps (by cases op <;> exact fun _ => rfl) rfl (.inl rfl) rfl (.inl rfl)
  | _ => cases hpermits

end Shared

/-! ### Looking a record up -/

namespace StatusRecord

/-- A record that is looked up says what is said here. -/
def Says (r : StatusRecord) (x : Tracked) : Prop :=
  r.status = x.status ∧ r.completedFiles = x.counts .completed ∧
    r.failedFiles = x.counts .failed ∧ r.totalFiles = x.total

theorem ofFields_of_numbers (workflowId executionId : String) {f : Fields} {x : Tracked}
    (now : Timestamp) (hstatus : f[statusField]? = some x.status.name) (hnumbers : x.Numbers f) :
    ∃ r, ofFields workflowId executionId f now = .ok r ∧ r.Says x := by
  have hread : readStatus f (Key.execution workflowId executionId) = .ok x.status := by
    simp only [readStatus, hstatus, ExecutionStatus.parse_name]
  have hcompleted : readCounter f (Key.execution workflowId executionId) completedField =
      .ok (x.counts .completed) :=
    Lifecycle.readCounter_of_shows _ (hnumbers.count .completed) (hnumbers.count_le .completed)
  have hfailed : readCounter f (Key.execution workflowId executionId) failedField =
      .ok (x.counts .failed) :=
    Lifecycle.readCounter_of_shows _ (hnumbers.count .failed) (hnumbers.count_le .failed)
  have htotal : readCounter f (Key.execution workflowId executionId) totalField = .ok x.total :=
    Lifecycle.readCounter_of_shows _ hnumbers.total hnumbers.total_le
  simp only [ofFields, hread, hcompleted, hfailed, htotal]
  exact ⟨_, rfl, rfl, rfl, rfl, rfl⟩

end StatusRecord

namespace Tracker

variable {workflowId executionId : String} {s : Shared} {f : Fields} {record : Option Tracked}
  {out : Checked StatusLookup} {p : Point}

/-- What a lookup may answer that started where a hash stood for a record, or for none: that
    record, or nothing if there is none when it answers. -/
def Finds (workflowId executionId : String) (s : Shared) (record : Option Tracked)
    (a : StatusLookup) (p : Point) : Prop :=
  a = .missing ∧ s.coord.live? p.shared.now (Key.execution workflowId executionId) = none ∨
    ∃ x r, record = some x ∧ a = .found r ∧ r.Says x

theorem get_ensures (h : s.coord.Carries s.now (Key.execution workflowId executionId) f record)
    (havailable : s.coord.available = true) :
    (get workflowId executionId).ensures (serving .never fun _ _ => False)
      (Finds workflowId executionId s record) ⟨s, []⟩ := by
  simp only [get, Program.ensures_bind, Program.ensures_coord]
  refine serving_coord (fun reply s' hnow hp => ?_) (fun _ _ _ _ hfault => hfault.elim)
    fun o s' hnow _ hp => ?_
  · obtain ⟨f', found, h', hfound⟩ := h.at_later hnow
    rw [CoordStore.perform_getFields_of_hash havailable h'.hash] at hp
    obtain ⟨rfl, -⟩ := Prod.mk.inj (Except.ok.inj hp)
    cases found with
    | none =>
      obtain ⟨hnone, rfl⟩ := h'.eq_empty
      exact .inl ⟨rfl, hnone⟩
    | some x =>
      have hx : record = some x := by simpa [eq_comm] using hfound
      -- A record has a status at least.
      have hfull : f'.isEmpty = false := by
        rw [Std.ExtTreeMap.isEmpty_eq_false_iff]
        rintro rfl
        simpa using h'.status x rfl
      simp only [hfull, Bool.false_eq_true, if_false, Program.ensures_bind, Program.ensures_time]
      refine serving_other ⟨nofun, nofun⟩ fun now s'' _ _ => ?_
      obtain ⟨r, hr, hsays⟩ :=
        ofFields_of_numbers workflowId executionId now (h'.status x rfl) h'.numbers
      simp only [hr]
      exact .inr ⟨x, r, hx, rfl, hsays⟩
  · obtain ⟨f', found, h', -⟩ := h.at_later hnow
    rw [CoordStore.perform_getFields_of_hash havailable h'.hash] at hp
    cases hp

/-- A lookup finds the record that the hash stands for, unless it is gone by then. -/
theorem get_ends (h : s.coord.Carries s.now (Key.execution workflowId executionId) f record)
    (havailable : s.coord.available = true)
    (hends : (get workflowId executionId).Ends .never ⟨s, []⟩ out p) :
    ∃ a, out = .ok a ∧ Finds workflowId executionId s record a p := by
  obtain ⟨hok, herror⟩ := hends.of_ensures (get_ensures h havailable)
  cases out with
  | error o => exact (herror o rfl).elim
  | ok a => exact ⟨a, rfl, hok a rfl⟩

end Tracker

end ExecutionControl
