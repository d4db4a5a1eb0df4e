import ExecutionControl.Proofs.CoordinationCalls
import ExecutionControl.Proofs.Numerals

/-! # What calls do to the counters of a hash

    A hash holds its counters as texts. `Reads` says which number a counter has; one that is
    missing has the number zero, also where the whole hash is missing. An increment adds one
    to its counter (`Reads.increment`). The other calls spare a counter, unless the hash goes
    with it (`Reads.spared`), and so does the time that passes (`Reads.at_later`).
-/

namespace ExecutionControl

/-- A field shows a number, or there is no such field and the number is zero. -/
def Shows (f : Fields) (field : String) (n : Nat) : Prop :=
  f[field]? = none ∧ n = 0 ∨ f[field]? = some (toString n)

/-- A call that leaves the counter in a field of the hash under a key as it is, as long as it
    leaves the hash there. -/
def CoordCall.Spares (key field : String) : CoordCall → Prop
  | .setFields k fields => k = key → ∀ p ∈ fields, p.1 ≠ field
  | .setNewField k f value => k = key → f = field → value = toString 0
  | .increment k f _ => k = key → f ≠ field
  | .getFields _ => True
  | .expire .. => True
  | .delete _ => True
  | _ => False

variable {f : Fields} {field other value : String} {n : Nat}

theorem Shows.insert_of_ne (h : Shows f field n) (hother : other ≠ field) :
    Shows (f.insert other value) field n := by
  unfold Shows
  simp only [Std.ExtTreeMap.getElem?_insert, Std.LawfulEqOrd.compare_eq_iff_eq, hother, if_false]
  exact h

theorem Shows.insert_all {fields : List (String × String)} (h : Shows f field n)
    (hfields : ∀ p ∈ fields, p.1 ≠ field) :
    Shows (fields.foldl (fun f p => f.insert p.1 p.2) f) field n := by
  induction fields generalizing f with
  | nil => exact h
  | cons p fields ih =>
    exact ih (h.insert_of_ne (hfields p List.mem_cons_self))
      fun q hq => hfields q (List.mem_cons_of_mem _ hq)

theorem shows_insert : Shows (f.insert field (toString n)) field n := by
  right
  simp

/-- A counter that shows a number of 64 bits is read as that number. -/
theorem Shows.counter {key : String} (h : Shows f field n) (hn : n ≤ Text.maxInt64) :
    CoordStore.counter f key field = .ok (n : Int) := by
  unfold CoordStore.counter
  rcases h with ⟨hnone, rfl⟩ | hsome
  · simp [hnone]
  · have htext : toString n = toString (n : Int) := rfl
    rw [hsome, htext]
    simp only [Text.readInt_toString hn]

namespace CoordStore

variable {s s' : CoordStore} {now later : Moment} {key k : String}

/-! ### Hashes -/

theorem hash_congr (h : s'.entries[key]? = s.entries[key]?) : s'.hash now key = s.hash now key := by
  simp [hash, datum?, live?, h]

theorem hash_of_lasts (h : now ≤ later) (hl : s.Lasts now later key) :
    s.hash later key = s.hash now key := by
  simp [hash, datum?, live?_of_lasts h hl]

theorem hash_of_absent (h : s.live? now key = none) : s.hash now key = .ok ∅ := by
  simp [hash, datum?, h]

theorem live?_putHash :
    (s.putHash now key f).live? now key = some ⟨.hash f, s.deadline? now key⟩ :=
  live?_eq_some.mpr ⟨entries_put_self, isLive_deadline?⟩

@[simp] theorem hash_putHash : (s.putHash now key f).hash now key = .ok f := by
  simp [hash, datum?, live?_putHash]

/-- A hash that is written keeps its deadline. -/
@[simp] theorem deadline?_putHash :
    (s.putHash now key f).deadline? now key = s.deadline? now key := by
  simp [deadline?, live?_putHash]

/-- A field stands in a hash that is there. -/
theorem live?_of_field (hhash : s.hash now key = .ok f) (hfield : f[field]? = some value) :
    ∃ deadline, s.live? now key = some ⟨.hash f, deadline⟩ := by
  cases hlive : s.live? now key with
  | none =>
    rw [hash_of_absent hlive] at hhash
    cases hhash
    simp at hfield
  | some e =>
    obtain ⟨datum, deadline⟩ := e
    simp only [hash, datum?, hlive, Option.map_some] at hhash
    cases datum with
    | text _ | sortedSet _ => cases hhash
    | hash f' =>
      cases hhash
      exact ⟨deadline, rfl⟩

/-- What is found later was found before. -/
theorem live?_eq_of_later {e : Entry} (h : now ≤ later) (he : s.live? later key = some e) :
    s.live? now key = some e := by
  obtain ⟨hentry, hlive⟩ := live?_eq_some.mp he
  exact live?_eq_some.mpr ⟨hentry, Entry.isLive_of_le h hlive⟩

/-- What is not there does not come back. -/
theorem live?_eq_none_of_later (h : now ≤ later) (hnow : s.live? now key = none) :
    s.live? later key = none := by
  rw [Option.eq_none_iff_forall_ne_some]
  intro e he
  rw [live?_eq_of_later h he] at hnow
  cases hnow

/-! ### Counters -/

/-- A number that fits in 64 bits after one is added was below the largest. -/
theorem succ_le_maxInt64 (h : fitsInt64 ((n : Int) + 1) = true) : n + 1 ≤ Text.maxInt64 := by
  have hbound : Int.pow 2 63 = 9223372036854775808 := by decide
  have hmax : Text.maxInt64 = 9223372036854775807 := by decide
  simp only [fitsInt64, hbound, Bool.and_eq_true, decide_eq_true_eq] at h
  omega

/-- A number of 64 bits to which one cannot be added is the largest. -/
theorem eq_maxInt64 (h : fitsInt64 ((n : Int) + 1) = false) (hn : n ≤ Text.maxInt64) :
    n = Text.maxInt64 := by
  have hbound : Int.pow 2 63 = 9223372036854775808 := by decide
  have hmax : Text.maxInt64 = 9223372036854775807 := by decide
  simp only [fitsInt64, hbound, Bool.and_eq_false_iff, decide_eq_false_iff_not] at h
  omega

/-- The counter in a field of the hash under a key has this number. -/
def Reads (s : CoordStore) (now : Moment) (key field : String) (n : Nat) : Prop :=
  ∃ f, s.hash now key = .ok f ∧ Shows f field n ∧ n ≤ Text.maxInt64

theorem reads_of_absent (h : s.live? now key = none) : s.Reads now key field 0 :=
  ⟨∅, hash_of_absent h, .inl ⟨by simp, rfl⟩, Nat.zero_le _⟩

theorem Reads.congr (h : s.Reads now key field n) (hsame : s'.entries[key]? = s.entries[key]?) :
    s'.Reads now key field n := by
  obtain ⟨f, hf, hrest⟩ := h
  exact ⟨f, (hash_congr hsame).trans hf, hrest⟩

/-- A counter above zero stands in a hash that is there. -/
theorem Reads.live?_isSome (h : s.Reads now key field n) (hn : n ≠ 0) :
    (s.live? now key).isSome := by
  cases hlive : s.live? now key with
  | some e => rfl
  | none =>
    obtain ⟨f, hf, hshows, -⟩ := h
    rw [hash_of_absent hlive] at hf
    cases hf
    simp [Shows, hn] at hshows

/-- A counter keeps its number while time passes, unless the hash goes away. -/
theorem Reads.at_later (h : s.Reads now key field n) (hlater : now ≤ later) :
    s.Reads later key field n ∨ s.Reads later key field 0 ∧ s.live? later key = none := by
  cases hlive : s.live? later key with
  | none => exact .inr ⟨reads_of_absent hlive, rfl⟩
  | some e =>
    left
    obtain ⟨f, hf, hrest⟩ := h
    refine ⟨f, ?_, hrest⟩
    rw [← hf]
    simp [hash, datum?, hlive, live?_eq_of_later hlater hlive]

/-- What an entry holds is read from it whatever its deadline, as long as it is there. -/
theorem hash_put_of_live {e : Entry} {deadline : Option Moment} (he : s.live? now key = some e)
    (hlive : Entry.isLive ⟨e.datum, deadline⟩ now) :
    (s.put key ⟨e.datum, deadline⟩).hash now key = s.hash now key := by
  have hput : (s.put key ⟨e.datum, deadline⟩).live? now key = some ⟨e.datum, deadline⟩ :=
    live?_eq_some.mpr ⟨entries_put_self, hlive⟩
  simp [hash, datum?, he, hput]

/-- A counter that is spared keeps its number, unless the hash goes away. -/
theorem Reads.spared {call : CoordCall} {answer : Except CoordError call.Result}
    (h : s.Reads now key field n) (hcall : call.Spares key field)
    (hp : s.perform now call = .ok (answer, s')) :
    s'.Reads now key field n ∨ s'.Reads now key field 0 ∧ s'.live? now key = none := by
  by_cases hk : key = call.subject
  · obtain ⟨f, hf, hshows, hn⟩ := h
    cases call with
    | setFields k fields =>
      obtain rfl : key = k := hk
      rcases perform_setFields hp with rfl | ⟨f', hf', rfl⟩
      · exact .inl ⟨f, hf, hshows, hn⟩
      · rw [hf] at hf'
        cases hf'
        exact .inl ⟨_, hash_putHash, hshows.insert_all (hcall rfl), hn⟩
    | setNewField k other value =>
      obtain rfl : key = k := hk
      rcases perform_setNewField hp with rfl | ⟨f', hf', hnew, rfl⟩
      · exact .inl ⟨f, hf, hshows, hn⟩
      · rw [hf] at hf'
        cases hf'
        refine .inl ⟨_, hash_putHash, ?_, hn⟩
        by_cases hother : other = field
        · -- The field was missing, and shows zero now.
          subst hother
          obtain rfl : n = 0 := by simpa [Shows, hnew] using hshows
          rw [hcall rfl rfl]
          exact shows_insert
        · exact hshows.insert_of_ne hother
    | increment k other delta =>
      obtain rfl : key = k := hk
      rcases perform_increment hp with ⟨-, rfl⟩ | ⟨f', m, hf', -, -, -, rfl⟩
      · exact .inl ⟨f, hf, hshows, hn⟩
      · rw [hf] at hf'
        cases hf'
        exact .inl ⟨_, hash_putHash, hshows.insert_of_ne (hcall rfl), hn⟩
    | getFields k =>
      rw [perform_getFields hp]
      exact .inl ⟨f, hf, hshows, hn⟩
    | expire k ttl =>
      obtain rfl : key = k := hk
      rcases perform_expire hp with rfl | ⟨e, t, he, rfl⟩ | rfl
      · exact .inl ⟨f, hf, hshows, hn⟩
      · by_cases hlive : Entry.isLive ⟨e.datum, some t⟩ now
        · exact .inl ⟨f, (hash_put_of_live he hlive).trans hf, hshows, hn⟩
        · have hgone : (s.put key ⟨e.datum, some t⟩).live? now key = none := by
            rw [live?_eq_none]
            intro e' he'
            rw [entries_put_self] at he'
            cases he'
            exact hlive
          exact .inr ⟨reads_of_absent hgone, hgone⟩
      · have hgone : (s.drop key).live? now key = none := live?_of_absent entries_drop_self
        exact .inr ⟨reads_of_absent hgone, hgone⟩
    | delete k =>
      obtain rfl : key = k := hk
      rcases perform_delete hp with rfl | rfl
      · exact .inl ⟨f, hf, hshows, hn⟩
      · have hgone : (s.drop key).live? now key = none := live?_of_absent entries_drop_self
        exact .inr ⟨reads_of_absent hgone, hgone⟩
    | _ => exact hcall.elim
  · left
    refine h.congr (perform_entries_of_ne hp hk ?_)
    intro pattern heq
    subst heq
    exact hcall

/-- A counter goes up by one, unless the store cannot be reached. -/
theorem Reads.increment {answer : Except CoordError Int} (h : s.Reads now key field n)
    (hp : s.perform now (.increment key field 1) = .ok (answer, s')) :
    (∃ err, answer = .error err) ∧ s.available = false ∧ s' = s ∨
      (∃ m, answer = .ok m) ∧ s'.Reads now key field (n + 1) := by
  obtain ⟨f, hf, hshows, hn⟩ := h
  cases havailable : s.available with
  | false =>
    simp only [perform, CoordStore.increment, havailable, Bool.false_eq_true, if_false] at hp
    cases hp
    exact .inl ⟨⟨_, rfl⟩, rfl, rfl⟩
  | true =>
    right
    simp only [perform, CoordStore.increment, havailable, if_true, hf, hshows.counter hn] at hp
    split at hp <;> cases hp
    rename_i hfits
    exact ⟨⟨_, rfl⟩, _, hash_putHash, shows_insert, succ_le_maxInt64 hfits⟩

/-- A call about a hash succeeds where there is one or nothing, if the store can be
    reached. -/
theorem Reads.answers {call : CoordCall} {answer : Except CoordError call.Result}
    (h : s.Reads now key field n) (havailable : s.available = true)
    (hkey : call.subject = key) (hcall : call.Spares key field)
    (hincrement : ∀ other delta, call ≠ .increment key other delta)
    (hp : s.perform now call = .ok (answer, s')) : ∃ v, answer = .ok v := by
  obtain ⟨f, hf, -, -⟩ := h
  cases call with
  | setFields k fields =>
    obtain rfl : k = key := hkey
    simp only [perform, setFields, whenAvailable, havailable, if_true, hf] at hp
    cases hp
    exact ⟨_, rfl⟩
  | setNewField k other value =>
    obtain rfl : k = key := hkey
    simp only [perform, setNewField, whenAvailable, havailable, if_true, hf] at hp
    split at hp <;> cases hp <;> exact ⟨_, rfl⟩
  | getFields k =>
    obtain rfl : k = key := hkey
    simp only [perform, getFields, whenAvailable, havailable, if_true, hf] at hp
    cases hp
    exact ⟨_, rfl⟩
  | expire k ttl =>
    simp only [perform, expire, havailable, if_true] at hp
    split at hp
    · cases hd : now.after ttl with
      | error o => rw [hd] at hp; cases hp
      | ok t => rw [hd] at hp; cases hp; exact ⟨_, rfl⟩
    · cases hp
      exact ⟨_, rfl⟩
  | delete k =>
    simp only [perform, delete, whenAvailable, havailable, if_true] at hp
    cases hp
    exact ⟨_, rfl⟩
  | increment k other delta =>
    obtain rfl : k = key := hkey
    exact absurd rfl (hincrement other delta)
  | _ => exact hcall.elim

end CoordStore

end ExecutionControl
