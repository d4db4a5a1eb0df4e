import ExecutionControl.Coordination.Call

/-! # What calls do to the coordination store

    For each kind of call one statement of all that it can do (`perform_addMember`,
    `perform_tryLock`, ...), and one for all kinds of what none of them does: a call leaves
    the entries of other keys alone (`perform_entries_of_ne`).

    `slots` reads the sorted set under a key. An entry is not looked at after its deadline,
    so that a set read later is the same set or has gone (`slots_eq_or_empty`).
-/

namespace ExecutionControl

/-- An entry that counts at a time counted before. -/
theorem Entry.isLive_of_le {e : Entry} {now later : Moment} (h : now ≤ later)
    (hlive : e.isLive later) : e.isLive now := by
  unfold Entry.isLive at *
  cases hd : e.deadline with
  | none => rfl
  | some t =>
    simp only [hd, decide_eq_true_eq] at hlive ⊢
    exact Nat.lt_of_le_of_lt h hlive

/-- A deadline that can be set lies a whole span ahead. -/
theorem Moment.after_eq_ok {now t : Moment} {span : Duration} (h : now.after span = .ok t) :
    t = now + span.nanos := by
  unfold Moment.after at h
  split at h
  · exact (Except.ok.inj h).symm
  · cases h

/-- A deadline that can be set is a reading of the clock. -/
theorem Moment.lt_bound_of_after {now t : Moment} {span : Duration} (h : now.after span = .ok t) :
    t < Moment.bound := by
  unfold Moment.after at h
  split at h
  · rename_i hbound
    cases h
    exact hbound
  · cases h

/-- A deadline that cannot be set lies beyond the clock. -/
theorem Moment.after_eq_error {now : Moment} {span : Duration} {o : Overflow}
    (h : now.after span = .error o) : o = .deadline ∧ Moment.bound ≤ now + span.nanos := by
  unfold Moment.after at h
  split at h
  · cases h
  · rename_i hbound
    exact ⟨(Except.error.inj h).symm, Nat.le_of_not_lt hbound⟩

namespace CoordStore

variable {s s' : CoordStore} {now later : Moment} {key k member field value : String} {e : Entry}

/-! ### Entries -/

@[simp] theorem entries_put_self : (s.put key e).entries[key]? = some e := by
  simp [put]

@[simp] theorem entries_put_of_ne (h : k ≠ key) : (s.put key e).entries[k]? = s.entries[k]? := by
  simp [put, Std.ExtTreeMap.getElem?_insert, h.symm]

@[simp] theorem entries_drop_self : (s.drop key).entries[key]? = none := by
  simp [drop]

@[simp] theorem entries_drop_of_ne (h : k ≠ key) : (s.drop key).entries[k]? = s.entries[k]? := by
  simp [drop, Std.ExtTreeMap.getElem?_erase, h.symm]

@[simp] theorem entries_putMembers_of_ne {m : Members} (h : k ≠ key) :
    (s.putMembers now key m).entries[k]? = s.entries[k]? := by
  unfold putMembers
  split
  · exact entries_drop_of_ne h
  · exact entries_put_of_ne h

@[simp] theorem entries_settle_of_ne (h : k ≠ key) :
    (s.settle now key).entries[k]? = s.entries[k]? := by
  unfold settle
  split
  · rfl
  · exact entries_drop_of_ne h

theorem live?_eq_some : s.live? now key = some e ↔ s.entries[key]? = some e ∧ e.isLive now := by
  unfold live?
  rw [Option.filter_eq_some_iff]

theorem live?_eq_none :
    s.live? now key = none ↔ ∀ e, s.entries[key]? = some e → ¬ e.isLive now := by
  unfold live?
  rw [Option.filter_eq_none_iff]

/-- Where nothing lies nothing is found. -/
theorem live?_of_absent (h : s.entries[key]? = none) : s.live? now key = none := by
  simp [live?, h]

theorem live?_of_entry (h : s.entries[key]? = some e) :
    s.live? now key = if e.isLive now then some e else none := by
  rw [live?, h, Option.filter_some]

theorem live?_congr (h : s'.entries[key]? = s.entries[key]?) :
    s'.live? now key = s.live? now key := by
  rw [live?, live?, h]

/-- What is found at a time was there before. -/
theorem datum?_of_le {d : Datum} (h : now ≤ later) (hlater : s.datum? later key = some d) :
    s.datum? now key = some d := by
  unfold datum? at hlater ⊢
  obtain ⟨e, he, hdatum⟩ := Option.map_eq_some_iff.mp hlater
  obtain ⟨hentry, hlive⟩ := live?_eq_some.mp he
  exact Option.map_eq_some_iff.mpr
    ⟨e, live?_eq_some.mpr ⟨hentry, Entry.isLive_of_le h hlive⟩, hdatum⟩

theorem datum?_congr (h : s'.entries[key]? = s.entries[key]?) :
    s'.datum? now key = s.datum? now key := by
  rw [datum?, datum?, live?_congr h]

/-! ### Sorted sets -/

/-- The sorted set under a key; there is none under a key that holds something else. -/
def slots (s : CoordStore) (now : Moment) (key : String) : Members :=
  match s.datum? now key with
  | some (.sortedSet m) => m
  | _ => ∅

theorem members_eq_ok {m : Members} (h : s.members now key = .ok m) : s.slots now key = m := by
  unfold members at h
  unfold slots
  split at h
  · simp_all
  · simp_all
  · cases h

/-- Where members are read a set is. -/
theorem datum_of_members {m : Members} (hm : s.members now key = .ok m)
    (he : s.live? now key = some e) : e.datum = .sortedSet m := by
  simp only [members, datum?, he, Option.map_some] at hm
  cases hdatum : e.datum with
  | text _ | hash _ => simp [hdatum] at hm
  | sortedSet m' =>
    rw [hdatum] at hm
    cases hm
    rfl

/-- A key that nothing was written to holds the same set. -/
theorem slots_congr (h : s'.entries[key]? = s.entries[key]?) :
    s'.slots now key = s.slots now key := by
  simp [slots, datum?, live?, h]

theorem deadline?_congr (h : s'.entries[key]? = s.entries[key]?) :
    s'.deadline? now key = s.deadline? now key := by
  simp [deadline?, live?, h]

/-- Whether what is under a key now is still under it at a later time. -/
def Lasts (s : CoordStore) (now later : Moment) (key : String) : Prop :=
  ∀ t, s.deadline? now key = some t → later < t

theorem lasts_self : s.Lasts now now key := by
  intro t ht
  unfold deadline? at ht
  rw [Option.bind_eq_some_iff] at ht
  obtain ⟨e, he, hd⟩ := ht
  have hlive := (live?_eq_some.mp he).2
  simpa [Entry.isLive, hd] using hlive

/-- What lasts until a later time is found there then. -/
theorem live?_of_lasts (h : now ≤ later) (hl : s.Lasts now later key) :
    s.live? later key = s.live? now key := by
  cases hnow : s.live? now key with
  | none =>
    -- Nothing comes back: what is found later was found before.
    rw [live?_eq_none] at hnow ⊢
    intro e he hlater
    exact hnow e he (Entry.isLive_of_le h hlater)
  | some e =>
    obtain ⟨he, _⟩ := live?_eq_some.mp hnow
    refine live?_eq_some.mpr ⟨he, ?_⟩
    unfold Entry.isLive
    cases hd : e.deadline with
    | none => rfl
    | some t =>
      have hdeadline : s.deadline? now key = some t := by simp [deadline?, hnow, hd]
      simpa using hl t hdeadline

/-- What lasts until a time lasts until every time before. -/
theorem Lasts.of_le {mid : Moment} (hl : s.Lasts now later key) (h : mid ≤ later) :
    s.Lasts now mid key :=
  fun t ht => Nat.lt_of_le_of_lt h (hl t ht)

theorem slots_of_lasts (h : now ≤ later) (hl : s.Lasts now later key) :
    s.slots later key = s.slots now key := by
  simp [slots, datum?, live?_of_lasts h hl]

theorem deadline?_of_lasts (h : now ≤ later) (hl : s.Lasts now later key) :
    s.deadline? later key = s.deadline? now key := by
  simp [deadline?, live?_of_lasts h hl]

/-- What lasts until a later time also does so from a time in between. -/
theorem Lasts.from_later {mid : Moment} (hl : s.Lasts now later key) (hnow : now ≤ mid)
    (hlater : mid ≤ later) : s.Lasts mid later key := by
  intro t ht
  rw [deadline?_of_lasts hnow (hl.of_le hlater)] at ht
  exact hl t ht

/-- What has a deadline is not found after it. -/
theorem live?_of_deadline {t : Moment} (ht : s.deadline? now key = some t) (hle : ¬ later < t) :
    s.live? later key = none := by
  simp only [deadline?, Option.bind_eq_some_iff] at ht
  obtain ⟨e, he, hd⟩ := ht
  rw [live?_eq_none]
  intro e' he' hlive
  rw [(live?_eq_some.mp he).1] at he'
  cases he'
  simp only [Entry.isLive, hd, decide_eq_true_eq] at hlive
  exact hle hlive

/-- What is found later has the same deadline. -/
theorem deadline?_eq_none_or (h : now ≤ later) (key : String) :
    s.deadline? later key = none ∨ s.deadline? later key = s.deadline? now key := by
  by_cases hl : s.Lasts now later key
  · exact Or.inr (deadline?_of_lasts h hl)
  · left
    simp only [Lasts, Classical.not_forall] at hl
    obtain ⟨t, ht, hle⟩ := hl
    simp [deadline?, live?_of_deadline ht hle]

theorem slots_of_not_lasts (hl : ¬ s.Lasts now later key) : s.slots later key = ∅ := by
  simp only [Lasts, Classical.not_forall] at hl
  obtain ⟨t, ht, hle⟩ := hl
  simp [slots, datum?, live?_of_deadline ht hle]

/-- A set that is read later is still the same or has gone. -/
theorem slots_eq_or_empty (h : now ≤ later) (key : String) :
    s.slots later key = s.slots now key ∨ s.slots later key = ∅ := by
  by_cases hl : s.Lasts now later key
  · exact Or.inl (slots_of_lasts h hl)
  · exact Or.inr (slots_of_not_lasts hl)

/-- Where no set is there is none later, as long as nothing is written. -/
theorem slots_eq_empty_of_le (h : now ≤ later) (hempty : s.slots now key = ∅) :
    s.slots later key = ∅ := by
  rcases slots_eq_or_empty h key with heq | hgone
  · rw [heq, hempty]
  · exact hgone

theorem slots_of_empty (h : s.entries = ∅) : s.slots now key = ∅ := by
  simp [slots, datum?, live?, h]

theorem slots_put {m : Members} {deadline : Option Moment} :
    (s.put key ⟨.sortedSet m, deadline⟩).slots later key =
      if Entry.isLive ⟨.sortedSet m, deadline⟩ later then m else ∅ := by
  by_cases hlive : Entry.isLive ⟨.sortedSet m, deadline⟩ later <;>
    simp [slots, datum?, live?, Option.filter_some, hlive]

theorem slots_drop : (s.drop key).slots later key = ∅ := by
  simp [slots, datum?, live?]

theorem slots_put_text {value : String} {deadline : Option Moment} :
    (s.put key ⟨.text value, deadline⟩).slots later key = ∅ := by
  by_cases hlive : Entry.isLive ⟨.text value, deadline⟩ later <;>
    simp [slots, datum?, live?, Option.filter_some, hlive]

/-- Where a text is or nothing, there is no set. -/
theorem slots_of_text (text : Option String) (h : s.datum? now key = text.map .text) :
    s.slots now key = ∅ := by
  cases text <;> simp [slots, h]

/-- A set that lasts until it is read is read as it was written. -/
theorem slots_putMembers {m : Members} (hl : s.Lasts now later key) :
    (s.putMembers now key m).slots later key = m := by
  unfold putMembers
  split
  · -- An empty set is not kept.
    rename_i hempty
    rw [slots_drop, Std.ExtTreeMap.isEmpty_iff.mp hempty]
  · have hlive : Entry.isLive ⟨.sortedSet m, s.deadline? now key⟩ later := by
      unfold Entry.isLive
      cases hd : s.deadline? now key with
      | none => rfl
      | some t => simpa using hl t hd
    rw [slots_put, if_pos hlive]

/-- A deadline that is handed on has not come. -/
theorem isLive_deadline? {datum : Datum} : Entry.isLive ⟨datum, s.deadline? now key⟩ now := by
  unfold Entry.isLive
  cases hd : s.deadline? now key with
  | none => rfl
  | some t => simpa using lasts_self t hd

/-- A set that is written keeps its deadline, unless it is empty. -/
theorem deadline?_putMembers {m : Members} (hm : m.isEmpty = false) :
    (s.putMembers now key m).deadline? now key = s.deadline? now key := by
  have hentry : (s.putMembers now key m).live? now key =
      some ⟨.sortedSet m, s.deadline? now key⟩ := by
    refine live?_eq_some.mpr ⟨?_, isLive_deadline?⟩
    simp [putMembers, hm]
  rw [deadline?, hentry]
  rfl

/-- A set that is written gets no deadline that it had not. -/
theorem deadline?_putMembers_eq_none_or {m : Members} :
    (s.putMembers now key m).deadline? now key = none ∨
      (s.putMembers now key m).deadline? now key = s.deadline? now key := by
  cases hm : m.isEmpty with
  | true => left; simp [putMembers, hm, deadline?, live?]
  | false => exact Or.inr (deadline?_putMembers hm)

/-! ### Single calls -/

/-- A store that cannot be reached answers every call with that, and stays as it is. -/
theorem perform_unreachable (h : s.available = false) (call : CoordCall) :
    s.perform now call = .ok s.unreachable := by
  cases call <;>
    simp [perform, addMember, removeMember, cardinality, removeScores, setFields, setNewField,
      getFields, increment, getText, setText, delete, expire, deletePattern, scan, tryLock,
      unlock, whenAvailable, h]

/-- The members that a removal from `low` to `high` keeps. -/
def keptScores (low high : Float) (m : Members) : Members :=
  m.filter fun _ score => score < low || score > high

theorem getElem?_keptScores {low high score : Float} {m : Members} :
    (keptScores low high m)[member]? = some score ↔
      m[member]? = some score ∧ (score < low ∨ score > high) := by
  unfold keptScores
  rw [Std.ExtTreeMap.getElem?_filter', Option.filter_eq_some_iff]
  simp

/-- What a call that edits the members of a set answers and leaves, as far as the members
    that it finds decide. -/
def memberEdit? : (call : CoordCall) → Option (Members → call.Result × Members)
  | .addMember _ member score => some fun m => (!m.contains member, m.insert member score)
  | .removeMember _ member => some fun m => (m.contains member, m.erase member)
  | .removeScores _ low high => some fun m =>
    (m.size - (keptScores low high m).size, keptScores low high m)
  | _ => none

/-- A call that edits members, on a store that can be reached. -/
theorem perform_memberEdit {call : CoordCall} {edit : Members → call.Result × Members}
    (hedit : memberEdit? call = some edit) (havailable : s.available = true) :
    s.perform now call = .ok (match s.members now call.subject with
      | .error e => (.error e, s)
      | .ok m => (.ok (edit m).1, s.putMembers now call.subject (edit m).2)) := by
  cases call with
  | addMember | removeMember | removeScores =>
    cases hedit
    simp only [perform, addMember, removeMember, removeScores, whenAvailable, havailable, if_true]
    rfl
  | _ => cases hedit

/-- A call that edits members fails and changes nothing, or it makes its edit. -/
theorem memberEdit_cases {call : CoordCall} {edit : Members → call.Result × Members}
    {answer : Except CoordError call.Result} (h : s.perform now call = .ok (answer, s'))
    (hedit : memberEdit? call = some edit) :
    (∃ err, answer = .error err ∧ s' = s ∧
        (s.available = true → s.members now call.subject = .error err)) ∨
      ∃ m, s.members now call.subject = .ok m ∧ answer = .ok (edit m).1 ∧
        s' = s.putMembers now call.subject (edit m).2 := by
  cases havailable : s.available with
  | false =>
    rw [perform_unreachable havailable] at h
    cases h
    exact .inl ⟨_, rfl, rfl, nofun⟩
  | true =>
    rw [perform_memberEdit hedit havailable] at h
    cases hm : s.members now call.subject with
    | error err =>
      rw [hm] at h
      cases h
      exact .inl ⟨err, rfl, rfl, fun _ => rfl⟩
    | ok m =>
      rw [hm] at h
      cases h
      exact .inr ⟨m, rfl, rfl, rfl⟩

/-- The edit that is made is that of the members that count. -/
theorem memberEdit_slots {call : CoordCall} {edit : Members → call.Result × Members}
    {answer : Except CoordError call.Result} (h : s.perform now call = .ok (answer, s'))
    (hedit : memberEdit? call = some edit) :
    (∃ err, answer = .error err) ∧ s' = s ∨
      (∃ a, answer = .ok a) ∧
        s' = s.putMembers now call.subject (edit (s.slots now call.subject)).2 := by
  obtain ⟨err, herr, hsame, -⟩ | ⟨m, hm, hok, hput⟩ := memberEdit_cases h hedit
  · exact .inl ⟨⟨err, herr⟩, hsame⟩
  · rw [members_eq_ok hm]
    exact .inr ⟨⟨_, hok⟩, hput⟩

theorem perform_addMember {score : Float} {answer : Except CoordError Bool}
    (h : s.perform now (.addMember key member score) = .ok (answer, s')) :
    (∃ err, answer = .error err) ∧ s' = s ∨
      (∃ new, answer = .ok new) ∧
        s' = s.putMembers now key ((s.slots now key).insert member score) :=
  memberEdit_slots h rfl

theorem perform_removeMember {answer : Except CoordError Bool}
    (h : s.perform now (.removeMember key member) = .ok (answer, s')) :
    (∃ err, answer = .error err) ∧ s' = s ∨
      (∃ held, answer = .ok held) ∧
        s' = s.putMembers now key ((s.slots now key).erase member) :=
  memberEdit_slots h rfl

theorem perform_removeScores {low high : Float} {answer : Except CoordError Nat}
    (h : s.perform now (.removeScores key low high) = .ok (answer, s')) :
    (∃ err, answer = .error err) ∧ s' = s ∨
      (∃ n, answer = .ok n) ∧
        s' = s.putMembers now key (keptScores low high (s.slots now key)) :=
  memberEdit_slots h rfl

/-- A removal by score that does not fail answers how many members it removed. -/
theorem perform_removeScores_ok {low high : Float} {n : Nat}
    (h : s.perform now (.removeScores key low high) = .ok (.ok n, s')) :
    ∃ m, s.members now key = .ok m ∧ n = m.size - (keptScores low high m).size ∧
      s' = s.putMembers now key (keptScores low high m) := by
  obtain ⟨err, herr, -, -⟩ | ⟨m, hm, hok, hput⟩ := memberEdit_cases h rfl
  · cases herr
  · exact ⟨m, hm, Except.ok.inj hok, hput⟩

theorem perform_cardinality {answer : Except CoordError Nat}
    (h : s.perform now (.cardinality key) = .ok (answer, s')) :
    s' = s ∧ ∀ n, answer = .ok n → n = (s.slots now key).size := by
  simp only [perform, cardinality, whenAvailable, unreachable] at h
  split at h
  · cases h
    refine ⟨rfl, fun n hn => ?_⟩
    cases hm : s.members now key with
    | error err => rw [hm] at hn; cases hn
    | ok m => rw [hm] at hn; cases hn; rw [members_eq_ok hm]
  · cases h
    exact ⟨rfl, fun n hn => nomatch hn⟩

theorem perform_getText {answer : Except CoordError (Option String)}
    (h : s.perform now (.getText key) = .ok (answer, s')) :
    s' = s ∧ ∀ text, answer = .ok text → s.datum? now key = text.map .text := by
  simp only [perform, getText, whenAvailable, unreachable] at h
  split at h
  · split at h <;> cases h <;> refine ⟨rfl, fun text ht => ?_⟩ <;> cases ht <;> assumption
  · cases h
    exact ⟨rfl, fun text ht => nomatch ht⟩

theorem perform_getText_ok {raw : String}
    (h : s.perform now (.getText key) = .ok (.ok (some raw), s')) :
    s.datum? now key = some (.text raw) ∧ s' = s :=
  ⟨(perform_getText h).2 _ rfl, (perform_getText h).1⟩

theorem perform_scan {start : String} {answer : Except CoordError (List String)}
    (h : s.perform now (.scan start) = .ok (answer, s')) : s' = s := by
  simp only [perform, scan, whenAvailable, unreachable] at h
  split at h <;> cases h <;> rfl

theorem perform_setText {value : String} {ttl : Option Duration} {answer : Except CoordError Unit}
    (h : s.perform now (.setText key value ttl) = .ok (answer, s')) :
    s' = s ∨ ∃ deadline, s' = s.put key ⟨.text value, deadline⟩ := by
  simp only [perform, setText, unreachable] at h
  split at h
  · cases hd : now.afterAny ttl with
    | error o => rw [hd] at h; cases h
    | ok deadline => rw [hd] at h; cases h; exact Or.inr ⟨deadline, rfl⟩
  · cases h
    exact Or.inl rfl

/-- A text with a time to live is put under its key, or the store cannot be reached. -/
theorem perform_setText_ttl {value : String} {ttl : Duration} {answer : Except CoordError Unit}
    (h : s.perform now (.setText key value (some ttl)) = .ok (answer, s')) :
    (∃ e, answer = .error e) ∧ s.available = false ∧ s' = s ∨
      answer = .ok () ∧ s' = s.put key ⟨.text value, some (now + ttl.nanos)⟩ := by
  simp only [perform, setText, Moment.afterAny, unreachable] at h
  split at h
  · cases hd : now.after ttl with
    | error o => rw [hd] at h; cases h
    | ok t =>
      rw [hd] at h
      cases h
      rw [Moment.after_eq_ok hd]
      exact .inr ⟨rfl, rfl⟩
  · rename_i havailable
    cases h
    exact .inl ⟨⟨_, rfl⟩, by simpa using havailable, rfl⟩

/-- A key is dropped, or the store cannot be reached. -/
theorem perform_delete_cases {answer : Except CoordError Bool}
    (h : s.perform now (.delete key) = .ok (answer, s')) :
    (∃ e, answer = .error e) ∧ s.available = false ∧ s' = s ∨
      (∃ existed, answer = .ok existed) ∧ s' = s.drop key := by
  simp only [perform, delete, whenAvailable, unreachable] at h
  split at h
  · cases h
    exact .inr ⟨⟨_, rfl⟩, rfl⟩
  · rename_i havailable
    cases h
    exact .inl ⟨⟨_, rfl⟩, by simpa using havailable, rfl⟩

theorem perform_delete {answer : Except CoordError Bool}
    (h : s.perform now (.delete key) = .ok (answer, s')) : s' = s ∨ s' = s.drop key := by
  rcases perform_delete_cases h with ⟨_, _, heq⟩ | ⟨_, heq⟩
  · exact .inl heq
  · exact .inr heq

/-- A deletion by pattern only removes entries. -/
theorem perform_deletePattern {pattern : String} {answer : Except CoordError Nat}
    (h : s.perform now (.deletePattern pattern) = .ok (answer, s')) :
    s'.available = s.available ∧
      ∀ k : String, s'.entries[k]? = s.entries[k]? ∨ s'.entries[k]? = none := by
  simp only [perform, deletePattern, whenAvailable, unreachable] at h
  split at h
  · split at h <;> cases h
    · refine ⟨rfl, fun k => ?_⟩
      rw [Std.ExtTreeMap.getElem?_filter']
      cases s.entries[k]? with
      | none => exact .inl rfl
      | some e =>
        rw [Option.filter_some]
        split
        · exact .inl rfl
        · exact .inr rfl
    · exact ⟨rfl, fun _ => .inl rfl⟩
  · cases h
    exact ⟨rfl, fun _ => .inl rfl⟩

/-- A lock is taken only where nothing is, and then until its time to live is over. -/
theorem perform_tryLock {token : String} {ttl : Duration} {answer : Except CoordError Bool}
    (h : s.perform now (.tryLock key token ttl) = .ok (answer, s')) :
    answer ≠ .ok true ∧ s' = s ∨
      answer = .ok true ∧ s.live? now key = none ∧
        s' = s.put key ⟨.text token, some (now + ttl.nanos)⟩ := by
  simp only [perform, tryLock, unreachable] at h
  split at h
  · split at h
    · cases h
      exact Or.inl ⟨by simp, rfl⟩
    · rename_i hfree
      cases hd : now.after ttl with
      | error o => rw [hd] at h; cases h
      | ok t =>
        rw [hd] at h
        cases h
        rw [Moment.after_eq_ok hd]
        exact Or.inr ⟨rfl, by simpa using hfree, rfl⟩
  · cases h
    exact Or.inl ⟨by simp, rfl⟩

/-- A lock overflows only where its time to live reaches beyond the clock. -/
theorem perform_tryLock_error {token : String} {ttl : Duration} {o : Overflow}
    (h : s.perform now (.tryLock key token ttl) = .error o) :
    o = .deadline ∧ Moment.bound ≤ now + ttl.nanos := by
  simp only [perform, tryLock] at h
  split at h
  · split at h
    · cases h
    · cases hd : now.after ttl with
      | error o' =>
        rw [hd] at h
        cases h
        exact Moment.after_eq_error hd
      | ok t => rw [hd] at h; cases h
  · cases h

/-- A text overflows only where its time to live reaches beyond the clock. -/
theorem perform_setText_error {value : String} {ttl : Duration} {o : Overflow}
    (h : s.perform now (.setText key value (some ttl)) = .error o) :
    o = .deadline ∧ Moment.bound ≤ now + ttl.nanos := by
  simp only [perform, setText, Moment.afterAny] at h
  split at h
  · cases hd : now.after ttl with
    | error o' =>
      rw [hd] at h
      cases h
      exact Moment.after_eq_error hd
    | ok t => rw [hd] at h; cases h
  · cases h

/-- A lock is freed only by the token that holds it. -/
theorem perform_unlock {token : String} {answer : Except CoordError Bool}
    (h : s.perform now (.unlock key token) = .ok (answer, s')) :
    (∃ err, answer = .error err) ∧ s' = s ∨
      s.isHeldBy now key token = true ∧ s' = s.drop key ∨
      s.isHeldBy now key token = false ∧ s' = s.settle now key := by
  simp only [perform, unlock, whenAvailable, unreachable] at h
  split at h
  · split at h
    · rename_i hheld
      cases h
      exact Or.inr (Or.inl ⟨hheld, rfl⟩)
    · rename_i hheld
      cases h
      exact Or.inr (Or.inr ⟨by simpa using hheld, rfl⟩)
  · cases h
    exact Or.inl ⟨⟨_, rfl⟩, rfl⟩

theorem perform_setFields {fields : List (String × String)} {answer : Except CoordError Unit}
    (h : s.perform now (.setFields key fields) = .ok (answer, s')) :
    s' = s ∨ ∃ f, s.hash now key = .ok f ∧
      s' = s.putHash now key (fields.foldl (fun f p => f.insert p.1 p.2) f) := by
  simp only [perform, setFields, whenAvailable, unreachable] at h
  split at h
  · split at h <;> cases h
    · exact .inl rfl
    · rename_i f hf
      exact .inr ⟨f, hf, rfl⟩
  · cases h
    exact .inl rfl

theorem perform_setNewField {answer : Except CoordError Bool}
    (h : s.perform now (.setNewField key field value) = .ok (answer, s')) :
    s' = s ∨ ∃ f, s.hash now key = .ok f ∧ f[field]? = none ∧
      s' = s.putHash now key (f.insert field value) := by
  simp only [perform, setNewField, whenAvailable, unreachable] at h
  split at h
  · split at h
    · cases h
      exact .inl rfl
    · rename_i f hf
      split at h <;> cases h
      · exact .inl rfl
      · rename_i hnew
        rw [Std.ExtTreeMap.contains_eq_isSome_getElem?, Bool.not_eq_true,
          Option.isSome_eq_false_iff, Option.isNone_iff_eq_none] at hnew
        exact .inr ⟨f, hf, hnew, rfl⟩
  · cases h
    exact .inl rfl

theorem perform_getFields {answer : Except CoordError Fields}
    (h : s.perform now (.getFields key) = .ok (answer, s')) : s' = s := by
  simp only [perform, getFields, whenAvailable, unreachable] at h
  split at h <;> cases h <;> rfl

theorem perform_getFields_ok {f : Fields}
    (h : s.perform now (.getFields key) = .ok (.ok f, s')) : s.hash now key = .ok f := by
  simp only [perform, getFields, whenAvailable, unreachable] at h
  split at h
  · exact (Prod.mk.inj (Except.ok.inj h)).1
  · cases h

/-- A counter is added to if it can be read. -/
theorem perform_increment {delta : Int} {answer : Except CoordError Int}
    (h : s.perform now (.increment key field delta) = .ok (answer, s')) :
    (∃ err, answer = .error err) ∧ s' = s ∨ ∃ f n, s.hash now key = .ok f ∧
      counter f key field = .ok n ∧ fitsInt64 (n + delta) = true ∧ answer = .ok (n + delta) ∧
      s' = s.putHash now key (f.insert field (toString (n + delta))) := by
  simp only [perform, increment, unreachable] at h
  split at h
  · split at h
    · cases h
      exact .inl ⟨⟨_, rfl⟩, rfl⟩
    · rename_i f hf
      split at h
      · cases h
        exact .inl ⟨⟨_, rfl⟩, rfl⟩
      · rename_i n hn
        split at h <;> cases h
        rename_i hfits
        exact .inr ⟨f, n, hf, hn, hfits, rfl, rfl⟩
  · cases h
    exact .inl ⟨⟨_, rfl⟩, rfl⟩

/-- An increment overflows only where its sum does not fit. -/
theorem perform_increment_error {delta : Int} {o : Overflow}
    (h : s.perform now (.increment key field delta) = .error o) :
    o = .count ∧ ∃ f n, s.hash now key = .ok f ∧ counter f key field = .ok n ∧
      fitsInt64 (n + delta) = false := by
  simp only [perform, increment] at h
  split at h
  · split at h
    · cases h
    · rename_i f hf
      split at h
      · cases h
      · rename_i n hn
        split at h <;> cases h
        rename_i hfits
        exact ⟨rfl, f, n, hf, hn, by simpa using hfits⟩
  · cases h

/-- Only what is there gets a new deadline; what is over is dropped. -/
theorem perform_expire_cases {ttl : Duration} {answer : Except CoordError Bool}
    (h : s.perform now (.expire key ttl) = .ok (answer, s')) :
    (∃ err, answer = .error err) ∧ s.available = false ∧ s' = s ∨
      (∃ e, s.live? now key = some e ∧ answer = .ok true ∧
        s' = s.put key { e with deadline := some (now + ttl.nanos) }) ∨
      s.live? now key = none ∧ answer = .ok false ∧ s' = s.drop key := by
  simp only [perform, expire, unreachable] at h
  split at h
  · split at h
    · rename_i e he
      cases hd : now.after ttl with
      | error o => rw [hd] at h; cases h
      | ok t =>
        rw [hd] at h
        cases h
        rw [Moment.after_eq_ok hd]
        exact .inr (.inl ⟨e, he, rfl, rfl⟩)
    · rename_i hnone
      cases h
      exact .inr (.inr ⟨hnone, rfl, rfl⟩)
  · rename_i havailable
    cases h
    exact .inl ⟨⟨_, rfl⟩, by simpa using havailable, rfl⟩

theorem perform_expire {ttl : Duration} {answer : Except CoordError Bool}
    (h : s.perform now (.expire key ttl) = .ok (answer, s')) :
    s' = s ∨ (∃ e t, s.live? now key = some e ∧ s' = s.put key { e with deadline := some t }) ∨
      s' = s.drop key := by
  rcases perform_expire_cases h with ⟨-, -, heq⟩ | ⟨e, he, -, heq⟩ | ⟨-, -, heq⟩
  · exact .inl heq
  · exact .inr (.inl ⟨e, _, he, heq⟩)
  · exact .inr (.inr heq)

/-- A deadline overflows only where it lies beyond the clock. -/
theorem perform_expire_error {ttl : Duration} {o : Overflow}
    (h : s.perform now (.expire key ttl) = .error o) :
    o = .deadline ∧ Moment.bound ≤ now + ttl.nanos := by
  simp only [perform, expire] at h
  split at h
  · split at h
    · cases hd : now.after ttl with
      | error o' =>
        rw [hd] at h
        cases h
        exact Moment.after_eq_error hd
      | ok t => rw [hd] at h; cases h
    · cases h
  · cases h

/-! ### Locks -/

theorem isHeldBy_iff {token : String} :
    s.isHeldBy now key token = true ↔ s.datum? now key = some (.text token) := by
  unfold isHeldBy
  split
  · rename_i holder hdatum
    simp [hdatum]
  · rename_i hother
    simp only [Bool.false_eq_true, false_iff]
    exact fun hdatum => hother token hdatum

/-- A lock that is held at a time was held before. -/
theorem isHeldBy_of_le {token : String} (h : now ≤ later)
    (hheld : s.isHeldBy later key token = true) : s.isHeldBy now key token = true := by
  rw [isHeldBy_iff] at hheld ⊢
  exact datum?_of_le h hheld

/-- A lock is free of a token that gave it back. -/
theorem isHeldBy_of_unlock {token : String} {held : Bool}
    (h : s.perform now (.unlock key token) = .ok (.ok held, s')) (hlater : now ≤ later) :
    s'.isHeldBy later key token = false := by
  rcases perform_unlock h with ⟨⟨_, herror⟩, _⟩ | ⟨_, rfl⟩ | ⟨hfree, rfl⟩
  · cases herror
  · simp [isHeldBy, datum?, live?]
  · -- The token did not hold the lock before, and what is over is dropped.
    rw [Bool.eq_false_iff]
    intro hheld
    have hnow := isHeldBy_of_le hlater hheld
    unfold settle at hnow
    split at hnow
    · rw [hfree] at hnow
      cases hnow
    · simp [isHeldBy, datum?, live?] at hnow

/-! ### All calls -/

/-- A call other than a deletion by pattern leaves the entries of other keys alone. -/
theorem perform_entries_of_ne {call : CoordCall} {answer : Except CoordError call.Result}
    (h : s.perform now call = .ok (answer, s')) (hk : k ≠ call.subject)
    (hpattern : ∀ pattern, call ≠ .deletePattern pattern) :
    s'.entries[k]? = s.entries[k]? := by
  cases call with
  | addMember | removeMember | removeScores =>
    obtain ⟨_, -, rfl, -⟩ | ⟨_, -, -, rfl⟩ := memberEdit_cases h rfl
    · rfl
    · exact entries_putMembers_of_ne hk
  | cardinality key => rw [(perform_cardinality h).1]
  | getText key => rw [(perform_getText h).1]
  | scan start => rw [perform_scan h]
  | setText key value ttl =>
    rcases perform_setText h with rfl | ⟨_, rfl⟩
    · rfl
    · exact entries_put_of_ne hk
  | delete key =>
    rcases perform_delete h with rfl | rfl
    · rfl
    · exact entries_drop_of_ne hk
  | tryLock key token ttl =>
    rcases perform_tryLock h with ⟨_, rfl⟩ | ⟨_, _, rfl⟩
    · rfl
    · exact entries_put_of_ne hk
  | unlock key token =>
    rcases perform_unlock h with ⟨_, rfl⟩ | ⟨_, rfl⟩ | ⟨_, rfl⟩
    · rfl
    · exact entries_drop_of_ne hk
    · exact entries_settle_of_ne hk
  | deletePattern pattern => exact absurd rfl (hpattern pattern)
  | setFields key fields =>
    rcases perform_setFields h with rfl | ⟨_, _, rfl⟩
    · rfl
    · exact entries_put_of_ne hk
  | setNewField key field value =>
    rcases perform_setNewField h with rfl | ⟨_, _, _, rfl⟩
    · rfl
    · exact entries_put_of_ne hk
  | getFields key => rw [perform_getFields h]
  | increment key field delta =>
    rcases perform_increment h with ⟨_, rfl⟩ | ⟨_, _, _, _, _, _, rfl⟩
    · rfl
    · exact entries_put_of_ne hk
  | expire key ttl =>
    rcases perform_expire h with rfl | ⟨_, _, _, rfl⟩ | rfl
    · rfl
    · exact entries_put_of_ne hk
    · exact entries_drop_of_ne hk

/-- No call changes whether the store can be reached. -/
theorem perform_available {call : CoordCall} {answer : Except CoordError call.Result}
    (h : s.perform now call = .ok (answer, s')) : s'.available = s.available := by
  have hmembers : ∀ key m, (s.putMembers now key m).available = s.available := by
    intro key m
    unfold putMembers
    split <;> rfl
  cases call with
  | addMember | removeMember | removeScores =>
    obtain ⟨_, -, rfl, -⟩ | ⟨_, -, -, rfl⟩ := memberEdit_cases h rfl
    · rfl
    · exact hmembers _ _
  | cardinality key => rw [(perform_cardinality h).1]
  | getText key => rw [(perform_getText h).1]
  | scan start => rw [perform_scan h]
  | setText key value ttl => rcases perform_setText h with rfl | ⟨_, rfl⟩ <;> rfl
  | delete key => rcases perform_delete h with rfl | rfl <;> rfl
  | tryLock key token ttl => rcases perform_tryLock h with ⟨_, rfl⟩ | ⟨_, _, rfl⟩ <;> rfl
  | unlock key token =>
    rcases perform_unlock h with ⟨_, rfl⟩ | ⟨_, rfl⟩ | ⟨_, rfl⟩
    · rfl
    · rfl
    · unfold settle
      split <;> rfl
  | deletePattern pattern => exact (perform_deletePattern h).1
  | setFields key fields => rcases perform_setFields h with rfl | ⟨_, _, rfl⟩ <;> rfl
  | setNewField key field value => rcases perform_setNewField h with rfl | ⟨_, _, _, rfl⟩ <;> rfl
  | getFields key => rw [perform_getFields h]
  | increment key field delta =>
    rcases perform_increment h with ⟨_, rfl⟩ | ⟨_, _, _, _, _, _, rfl⟩ <;> rfl
  | expire key ttl => rcases perform_expire h with rfl | ⟨_, _, _, rfl⟩ | rfl <;> rfl

end CoordStore

end ExecutionControl
