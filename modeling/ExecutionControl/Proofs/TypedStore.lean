import ExecutionControl.Proofs.HashChanges
import ExecutionControl.Proofs.KeyFamilies
import ExecutionControl.Tracking.Record

/-! # A store of typed keys

    Which type of value belongs under which key, and what the fields of a status record may
    hold that are read back. A call that suits its key (`CoordCall.Suits`) finds a value of
    the type that it works on, so that it fails only if the store cannot be reached or cannot
    delete by pattern (`Typed.isOutage`), and it leaves the store typed (`Typed.perform`).
-/

namespace ExecutionControl

/-! ### Fields of status records -/

/-- Whether a value may stand in a field of a status record: a counter is a number of 64
    bits, and a status goes by its name. -/
def StatusRecord.Fits (field value : String) : Prop :=
  ((field = completedField ∨ field = failedField) →
      ∃ n : Nat, n ≤ Text.maxInt64 ∧ value = toString n) ∧
    (field = statusField → ∃ status : ExecutionStatus, value = status.name)

open StatusRecord

/-- A hash in which the fields that are read back can be read. -/
def Legible (f : Fields) : Prop := ∀ field value, f[field]? = some value → Fits field value

variable {f : Fields} {field value key : String}

/-- Other fields hold what they like. -/
theorem fits_other (hcompleted : field ≠ completedField) (hfailed : field ≠ failedField)
    (hstatus : field ≠ statusField) (value : String) : Fits field value := by
  refine ⟨fun hcounter => ?_, fun h => absurd h hstatus⟩
  rcases hcounter with h | h
  · exact absurd h hcompleted
  · exact absurd h hfailed

theorem fits_status (status : ExecutionStatus) : Fits statusField status.name := by
  refine ⟨fun hcounter => ?_, fun _ => ⟨status, rfl⟩⟩
  exact absurd hcounter (by decide)

theorem fits_counter {n : Nat} (hfield : field = completedField ∨ field = failedField)
    (hn : n ≤ Text.maxInt64) : Fits field (toString n) := by
  refine ⟨fun _ => ⟨n, hn, rfl⟩, fun hstatus => ?_⟩
  subst hstatus
  exact absurd hfield (by decide)

theorem legible_empty : Legible ∅ := by
  intro field value h
  simp at h

theorem Legible.insert (h : Legible f) (hfits : Fits field value) :
    Legible (f.insert field value) := by
  intro other raw hraw
  by_cases hother : field = other
  · subst hother
    rw [Std.ExtTreeMap.getElem?_insert_self] at hraw
    cases hraw
    exact hfits
  · rw [Std.ExtTreeMap.getElem?_insert] at hraw
    simp only [Std.LawfulEqOrd.compare_eq_iff_eq, hother, if_false] at hraw
    exact h other raw hraw

theorem Legible.insert_all {fields : List (String × String)} (h : Legible f)
    (hfits : ∀ p ∈ fields, Fits p.1 p.2) :
    Legible (fields.foldl (fun f p => f.insert p.1 p.2) f) := by
  induction fields generalizing f with
  | nil => exact h
  | cons p fields ih =>
    refine ih (h.insert (hfits p List.mem_cons_self)) fun q hq => ?_
    exact hfits q (List.mem_cons_of_mem p hq)

/-- A counter of a hash that can be read shows a number. -/
theorem Legible.shows (h : Legible f) (hfield : field = completedField ∨ field = failedField) :
    ∃ n, Shows f field n ∧ n ≤ Text.maxInt64 := by
  cases hraw : f[field]? with
  | none => exact ⟨0, .inl ⟨hraw, rfl⟩, Nat.zero_le _⟩
  | some raw =>
    obtain ⟨n, hn, rfl⟩ := (h field raw hraw).1 hfield
    exact ⟨n, .inr hraw, hn⟩

/-! ### Keys -/

namespace Key

/-- Whether a key holds a text: a lock or a cached limit. -/
def IsText (key : String) : Prop := (∃ o, key = orgLock o) ∨ ∃ o, key = limitCache o

/-- Whether a key holds the record of an execution. -/
def IsExecution (key : String) : Prop :=
  ∃ workflowId executionId, key = execution workflowId executionId

theorem IsSlots.not_isText (h : IsSlots key) : ¬ IsText key := by
  rintro (⟨o, rfl⟩ | ⟨o, rfl⟩)
  · exact h.ne_orgLock o rfl
  · exact h.ne_limitCache o rfl

theorem IsSlots.not_isExecution (h : IsSlots key) : ¬ IsExecution key := by
  rintro ⟨w, e, rfl⟩
  exact h.ne_execution w e rfl

theorem IsText.not_isExecution (h : IsText key) : ¬ IsExecution key := by
  rintro ⟨w, e, rfl⟩
  rcases h with ⟨o, h⟩ | ⟨o, h⟩
  · exact execution_ne_orgLock w e o h
  · exact execution_ne_limitCache w e o h

/-- What may lie under a key. -/
structure Holds (key : String) (d : Datum) : Prop where
  slots : IsSlots key → ∃ m, d = .sortedSet m
  text : IsText key → ∃ t, d = .text t
  record : IsExecution key → ∃ f, d = .hash f ∧ Legible f

theorem holds_sortedSet (h : IsSlots key) (m : Members) : Holds key (.sortedSet m) where
  slots _ := ⟨m, rfl⟩
  text htext := absurd htext h.not_isText
  record hrecord := absurd hrecord h.not_isExecution

theorem holds_text (h : IsText key) (t : String) : Holds key (.text t) where
  slots hslots := absurd h hslots.not_isText
  text _ := ⟨t, rfl⟩
  record hrecord := absurd hrecord h.not_isExecution

theorem holds_hash (h : IsExecution key) (hf : Legible f) : Holds key (.hash f) where
  slots hslots := absurd h hslots.not_isExecution
  text htext := absurd h htext.not_isExecution
  record _ := ⟨f, rfl, hf⟩

end Key

/-! ### Calls -/

/-- A call works on the type of value that belongs under its key, and writes what may stand
    there. -/
def CoordCall.Suits : CoordCall → Prop
  | .addMember key .. => Key.IsSlots key
  | .removeMember key _ => Key.IsSlots key
  | .cardinality key => Key.IsSlots key
  | .removeScores key .. => Key.IsSlots key
  | .tryLock key .. => Key.IsText key
  | .unlock key _ => Key.IsText key
  | .getText key => Key.IsText key
  | .setText key .. => Key.IsText key
  | .setFields key fields => Key.IsExecution key ∧ ∀ p ∈ fields, Fits p.1 p.2
  | .setNewField key field value => Key.IsExecution key ∧ Fits field value
  | .increment key field delta =>
    Key.IsExecution key ∧ (field = completedField ∨ field = failedField) ∧ delta = 1
  | .getFields key => Key.IsExecution key
  | .expire key _ => Key.IsExecution key
  | .delete _ => True
  | .deletePattern _ => True
  | .scan _ => True

/-- An error that is not the fault of a caller: the store cannot be reached, or it cannot
    delete by pattern. -/
def CoordError.IsOutage (call : CoordCall) (e : CoordError) : Prop :=
  (∃ reason, e = .unavailable reason) ∨
    (∃ adapter operation, e = .unsupported adapter operation) ∧
      ∃ pattern, call = .deletePattern pattern

namespace CoordStore

variable {s s' : CoordStore} {now : Moment} {e : Entry} {d : Datum} {deadline : Option Moment}

/-- Every key holds what may lie under it. -/
def Typed (s : CoordStore) : Prop := ∀ key e, s.entries[key]? = some e → Key.Holds key e.datum

theorem typed_empty (h : s.entries = ∅) : s.Typed := by
  intro key e he
  simp [h] at he

namespace Typed

/-! ### What is read -/

theorem holds_datum? (h : s.Typed) (hd : s.datum? now key = some d) : Key.Holds key d := by
  simp only [datum?, Option.map_eq_some_iff] at hd
  obtain ⟨e, he, rfl⟩ := hd
  exact h key e (live?_eq_some.mp he).1

/-- Under the key of slots there is a sorted set or nothing. -/
theorem members_eq_ok (h : s.Typed) (hkey : Key.IsSlots key) : ∃ m, s.members now key = .ok m := by
  unfold members
  cases hd : s.datum? now key with
  | none => exact ⟨∅, rfl⟩
  | some d =>
    obtain ⟨m, rfl⟩ := (h.holds_datum? hd).slots hkey
    exact ⟨m, rfl⟩

/-- Under the key of an execution there is a hash that can be read, or nothing. -/
theorem hash_eq_ok (h : s.Typed) (hkey : Key.IsExecution key) :
    ∃ f, s.hash now key = .ok f ∧ Legible f := by
  unfold hash
  cases hd : s.datum? now key with
  | none => exact ⟨∅, rfl, legible_empty⟩
  | some d =>
    obtain ⟨f, rfl, hf⟩ := (h.holds_datum? hd).record hkey
    exact ⟨f, rfl, hf⟩

theorem legible_hash (h : s.Typed) (hkey : Key.IsExecution key) (hf : s.hash now key = .ok f) :
    Legible f := by
  obtain ⟨f', hf', hlegible⟩ : ∃ f', s.hash now key = .ok f' ∧ Legible f' := h.hash_eq_ok hkey
  rw [hf] at hf'
  cases hf'
  exact hlegible

/-- Under the key of a lock or of a cached limit there is a text or nothing. -/
theorem datum?_eq_text (h : s.Typed) (hkey : Key.IsText key) :
    ∃ text : Option String, s.datum? now key = text.map .text := by
  cases hd : s.datum? now key with
  | none => exact ⟨none, rfl⟩
  | some d =>
    obtain ⟨t, rfl⟩ := (h.holds_datum? hd).text hkey
    exact ⟨some t, rfl⟩

/-- What needs a deadline ends with a value or with an overflow. -/
theorem map_ne_error {α β : Type} {deadline : Checked β} {v : α} {after : β → CoordStore}
    {err : CoordError} :
    deadline.map (fun t => ((.ok v, after t) : Answer α)) ≠ .ok (.error err, s') := by
  intro hp
  cases deadline with
  | ok t => cases hp
  | error o => cases hp

/-- A call that suits its key fails only if the store cannot be reached, or cannot delete by
    pattern. -/
theorem isOutage {call : CoordCall} {err : CoordError} (h : s.Typed) (hcall : call.Suits)
    (hp : s.perform now call = .ok (.error err, s')) : err.IsOutage call := by
  cases havailable : s.available with
  | false =>
    rw [perform_unreachable havailable] at hp
    cases hp
    exact .inl ⟨_, rfl⟩
  | true =>
    -- What is read under the key is of the type that the call works on, so that it succeeds.
    cases call with
    | addMember | removeMember | removeScores =>
      obtain ⟨m, hm⟩ := h.members_eq_ok hcall
      obtain ⟨e, -, -, herror⟩ | ⟨_, -, hok, -⟩ := memberEdit_cases hp rfl
      · cases hm.symm.trans (herror havailable)
      · cases hok
    | cardinality key =>
      obtain ⟨m, hm⟩ : ∃ m, s.members now key = .ok m := h.members_eq_ok hcall
      simp only [CoordStore.perform, cardinality, whenAvailable, havailable, if_true, hm] at hp
      cases hp
    | tryLock key token ttl =>
      simp only [CoordStore.perform, tryLock, havailable, if_true] at hp
      split at hp
      · cases hp
      · exact absurd hp map_ne_error
    | unlock key token =>
      simp only [CoordStore.perform, unlock, whenAvailable, havailable, if_true] at hp
      split at hp <;> cases hp
    | getText key =>
      obtain ⟨text, ht⟩ : ∃ text : Option String, s.datum? now key = text.map .text :=
        h.datum?_eq_text hcall
      simp only [CoordStore.perform, getText, whenAvailable, havailable, if_true, ht] at hp
      cases text <;> cases hp
    | setText key value ttl =>
      simp only [CoordStore.perform, setText, havailable, if_true] at hp
      exact absurd hp map_ne_error
    | setFields key fields =>
      obtain ⟨f, hf, -⟩ : ∃ f, s.hash now key = .ok f ∧ Legible f := h.hash_eq_ok hcall.1
      simp only [CoordStore.perform, setFields, whenAvailable, havailable, if_true, hf] at hp
      cases hp
    | setNewField key field value =>
      obtain ⟨f, hf, -⟩ : ∃ f, s.hash now key = .ok f ∧ Legible f := h.hash_eq_ok hcall.1
      simp only [CoordStore.perform, setNewField, whenAvailable, havailable, if_true, hf] at hp
      split at hp <;> cases hp
    | getFields key =>
      obtain ⟨f, hf, -⟩ : ∃ f, s.hash now key = .ok f ∧ Legible f := h.hash_eq_ok hcall
      simp only [CoordStore.perform, getFields, whenAvailable, havailable, if_true, hf] at hp
      cases hp
    | increment key field delta =>
      obtain ⟨f, hf, hlegible⟩ : ∃ f, s.hash now key = .ok f ∧ Legible f := h.hash_eq_ok hcall.1
      obtain ⟨n, hshows, hn⟩ := hlegible.shows hcall.2.1
      simp only [CoordStore.perform, increment, havailable, if_true, hf, hshows.counter hn] at hp
      -- A sum that does not fit has no answer at all.
      split at hp <;> cases hp
    | expire key ttl =>
      simp only [CoordStore.perform, expire, havailable, if_true] at hp
      split at hp
      · exact absurd hp map_ne_error
      · cases hp
    | delete key =>
      simp only [CoordStore.perform, delete, whenAvailable, havailable, if_true] at hp
      cases hp
    | deletePattern pattern =>
      simp only [CoordStore.perform, deletePattern, whenAvailable, havailable, if_true] at hp
      split at hp <;> cases hp
      exact .inr ⟨⟨_, _, rfl⟩, pattern, rfl⟩
    | scan start =>
      simp only [CoordStore.perform, scan, whenAvailable, havailable, if_true] at hp
      cases hp

/-! ### What is written -/

theorem put (h : s.Typed) (hd : Key.Holds key d) : (s.put key ⟨d, deadline⟩).Typed := by
  intro k e he
  by_cases hk : k = key
  · subst hk
    rw [entries_put_self] at he
    cases he
    exact hd
  · rw [entries_put_of_ne hk] at he
    exact h k e he

theorem drop (h : s.Typed) (key : String) : (s.drop key).Typed := by
  intro k e he
  by_cases hk : k = key
  · subst hk
    rw [entries_drop_self] at he
    cases he
  · rw [entries_drop_of_ne hk] at he
    exact h k e he

theorem putMembers (h : s.Typed) (hkey : Key.IsSlots key) (m : Members) :
    (s.putMembers now key m).Typed := by
  unfold CoordStore.putMembers
  split
  · exact h.drop key
  · exact h.put (Key.holds_sortedSet hkey m)

theorem putHash (h : s.Typed) (hkey : Key.IsExecution key) (hf : Legible f) :
    (s.putHash now key f).Typed :=
  h.put (Key.holds_hash hkey hf)

/-- A call that suits its key leaves the store typed. -/
theorem perform {call : CoordCall} {answer : Except CoordError call.Result} (h : s.Typed)
    (hcall : call.Suits) (hp : s.perform now call = .ok (answer, s')) : s'.Typed := by
  cases call with
  | addMember | removeMember | removeScores =>
    obtain ⟨_, -, rfl, -⟩ | ⟨_, -, -, rfl⟩ := memberEdit_cases hp rfl
    · exact h
    · exact h.putMembers hcall _
  | cardinality key =>
    obtain ⟨rfl, -⟩ := perform_cardinality hp
    exact h
  | tryLock key token ttl =>
    rcases perform_tryLock hp with ⟨-, rfl⟩ | ⟨-, -, rfl⟩
    · exact h
    · exact h.put (Key.holds_text hcall token)
  | unlock key token =>
    rcases perform_unlock hp with ⟨-, rfl⟩ | ⟨-, rfl⟩ | ⟨-, rfl⟩
    · exact h
    · exact h.drop key
    · unfold settle
      split
      · exact h
      · exact h.drop key
  | getText key =>
    obtain ⟨rfl, -⟩ := perform_getText hp
    exact h
  | setText key value ttl =>
    rcases perform_setText hp with rfl | ⟨deadline, rfl⟩
    · exact h
    · exact h.put (Key.holds_text hcall value)
  | setFields key fields =>
    obtain ⟨hkey, hfields⟩ := hcall
    rcases perform_setFields hp with rfl | ⟨f, hf, rfl⟩
    · exact h
    · exact h.putHash hkey ((h.legible_hash hkey hf).insert_all hfields)
  | setNewField key field value =>
    obtain ⟨hkey, hfits⟩ := hcall
    rcases perform_setNewField hp with rfl | ⟨f, hf, -, rfl⟩
    · exact h
    · exact h.putHash hkey ((h.legible_hash hkey hf).insert hfits)
  | getFields key =>
    rw [perform_getFields hp]
    exact h
  | increment key field delta =>
    obtain ⟨hkey, hfield, rfl⟩ := hcall
    rcases perform_increment hp with ⟨-, rfl⟩ | ⟨f, n, hf, hn, hfits, -, rfl⟩
    · exact h
    · have hlegible := h.legible_hash hkey hf
      obtain ⟨m, hshows, hm⟩ := hlegible.shows hfield
      rw [hshows.counter hm] at hn
      cases hn
      -- The sum fits in 64 bits, or there would be no answer.
      have hsum : m + 1 ≤ Text.maxInt64 := succ_le_maxInt64 hfits
      exact h.putHash hkey (hlegible.insert (fits_counter hfield hsum))
  | expire key ttl =>
    rcases perform_expire hp with rfl | ⟨e, t, he, rfl⟩ | rfl
    · exact h
    · exact h.put (h key e (live?_eq_some.mp he).1)
    · exact h.drop key
  | delete key =>
    rcases perform_delete hp with rfl | rfl
    · exact h
    · exact h.drop key
  | deletePattern pattern =>
    intro k e he
    rcases (perform_deletePattern hp).2 k with hsame | hgone
    · rw [hsame] at he
      exact h k e he
    · rw [hgone] at he
      cases he
  | scan start =>
    rw [perform_scan hp]
    exact h

end Typed

end CoordStore

end ExecutionControl
