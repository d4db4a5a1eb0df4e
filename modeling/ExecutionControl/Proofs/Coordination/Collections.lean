import ExecutionControl.Proofs.Coordination.Runs
import ExecutionControl.Proofs.KeyOrder

/-! # Empty collections

    A sorted set that becomes empty is removed with its key, so that no key ever holds an
    empty one. A hash never loses a field, and a call that sets fields leaves an empty hash only
    if it sets none of them where nothing was. So whatever calls are made, at whatever times, an
    empty collection is always a hash, and comes from such a call (`stores_of_perform`).

    `no_empty_collections` follows a whole run, and says what calls see of a key that is
    reported as empty.
-/

namespace ExecutionControl

/-- A collection without elements. -/
def Datum.IsEmpty : Datum → Prop
  | .text _ => False
  | .hash f => f = ∅
  | .sortedSet m => m = ∅

namespace CoordStore

variable {s s' : CoordStore} {now : Moment} {key k : String} {d : Datum} {e : Entry}
  {call : CoordCall}

/-- A value lies under a key, whether it is over or not. -/
def Stores (s : CoordStore) (key : String) (d : Datum) : Prop :=
  ∃ e, s.entries[key]? = some e ∧ e.datum = d

theorem stores_of_live? (h : s.live? now key = some e) : s.Stores key e.datum :=
  ⟨e, (live?_eq_some.mp h).1, rfl⟩

/-! ### What is written is not empty -/

theorem stores_put :
    (s.put k e).Stores key d ↔ if key = k then e.datum = d else s.Stores key d := by
  unfold Stores
  split
  · rename_i hk
    subst hk
    simp
  · rename_i hk
    rw [entries_put_of_ne hk]

/-- A value that is not written was there. -/
theorem stores_of_put (h : (s.put k e).Stores key d) (hd : e.datum ≠ d) : s.Stores key d := by
  rw [stores_put] at h
  split at h
  · exact absurd h hd
  · exact h

/-- A new deadline leaves the value as it is. -/
theorem stores_of_redated {deadline : Option Moment} (he : s.live? now k = some e)
    (h : (s.put k { e with deadline }).Stores key d) : s.Stores key d := by
  rw [stores_put] at h
  split at h
  · rename_i hk
    subst hk
    exact ⟨e, (live?_eq_some.mp he).1, h⟩
  · exact h

/-- A value that is left was there. -/
theorem stores_of_drop (h : (s.drop k).Stores key d) : s.Stores key d := by
  obtain ⟨e, he, hdatum⟩ := h
  by_cases hk : key = k
  · subst hk
    rw [entries_drop_self] at he
    cases he
  · rw [entries_drop_of_ne hk] at he
    exact ⟨e, he, hdatum⟩

theorem stores_of_settle (h : (s.settle now k).Stores key d) : s.Stores key d := by
  unfold settle at h
  split at h
  · exact h
  · exact stores_of_drop h

/-- Members are written only if there are some. -/
theorem stores_of_putMembers {m : Members} (h : (s.putMembers now k m).Stores key d)
    (hd : d.IsEmpty) : s.Stores key d := by
  unfold putMembers at h
  split at h
  · exact stores_of_drop h
  · rename_i hm
    refine stores_of_put h ?_
    rintro rfl
    exact hm (Std.ExtTreeMap.isEmpty_iff.mpr hd)

/-- Fields with one more are not none. -/
theorem insert_ne_empty {f : Fields} {field value : String} : f.insert field value ≠ ∅ := by
  intro hempty
  have hfield : (f.insert field value)[field]? = some value := Std.ExtTreeMap.getElem?_insert_self
  rw [hempty] at hfield
  cases hfield

theorem stores_of_insert {f : Fields} {field value : String}
    (h : (s.putHash now k (f.insert field value)).Stores key d) (hd : d.IsEmpty) :
    s.Stores key d := by
  refine stores_of_put h ?_
  rintro rfl
  exact insert_ne_empty hd

/-- Fields that were set one after another are none only if there were none to set. -/
theorem foldl_insert_eq_empty {f : Fields} {fields : List (String × String)}
    (h : fields.foldl (fun f p => f.insert p.1 p.2) f = ∅) : fields = [] ∧ f = ∅ := by
  induction fields generalizing f with
  | nil => exact ⟨rfl, h⟩
  | cons p fields ih => exact absurd (ih h).2 insert_ne_empty

/-- A hash that is read as empty lies there, or nothing does. -/
theorem live?_or_stores_of_hash (h : s.hash now key = .ok ∅) :
    s.live? now key = none ∨ s.Stores key (.hash ∅) := by
  unfold hash datum? at h
  cases hlive : s.live? now key with
  | none => exact .inl rfl
  | some e =>
    right
    have hstores := stores_of_live? hlive
    rw [hlive, Option.map_some] at h
    split at h
    · contradiction
    · rename_i f hf
      cases h
      rwa [Option.some.inj hf] at hstores
    · cases h

/-! ### Single calls -/

/-- The store can be reached, and nothing is under a key. -/
structure Vacant (s : CoordStore) (now : Moment) (key : String) : Prop where
  available : s.available = true
  free : s.live? now key = none

/-- To set no fields where nothing is makes a hash all the same. -/
theorem Vacant.perform (h : s.Vacant now key) :
    s.perform now (.setFields key []) = .ok (.ok (), s.put key ⟨.hash ∅, none⟩) := by
  simp [CoordStore.perform, setFields, whenAvailable, h.available, hash, datum?, deadline?, putHash,
    h.free]

/-- What is empty after a call was empty before it, or it is the hash of a call that sets no
    fields where nothing is. -/
theorem stores_of_perform {answer : Except CoordError call.Result}
    (h : s.perform now call = .ok (answer, s')) (hstores : s'.Stores key d) (hd : d.IsEmpty) :
    s.Stores key d ∨ call = .setFields key [] ∧ s.Vacant now key ∧ d = .hash ∅ := by
  -- Members are written only if there are some, and fields that gain one are not none. So only
  -- a call that sets fields and has none to set writes anything empty.
  cases call with
  | addMember | removeMember | removeScores =>
    obtain ⟨_, -, rfl, -⟩ | ⟨_, -, -, rfl⟩ := memberEdit_cases h rfl
    · exact .inl hstores
    · exact .inl (stores_of_putMembers hstores hd)
  | setFields k fields =>
    cases havailable : s.available with
    | false =>
      rw [perform_unreachable havailable] at h
      cases h
      exact .inl hstores
    | true =>
      rcases perform_setFields h with rfl | ⟨f, hf, rfl⟩
      · exact .inl hstores
      · rw [putHash, stores_put] at hstores
        split at hstores
        · -- All fields that the hash has are those that were set.
          rename_i hk
          subst hk
          subst hstores
          obtain ⟨rfl, rfl⟩ := foldl_insert_eq_empty hd
          rcases live?_or_stores_of_hash hf with hfree | hold
          · exact .inr ⟨rfl, ⟨havailable, hfree⟩, rfl⟩
          · exact .inl hold
        · exact .inl hstores
  | setNewField k field value =>
    rcases perform_setNewField h with rfl | ⟨_, _, _, rfl⟩
    · exact .inl hstores
    · exact .inl (stores_of_insert hstores hd)
  | increment k field delta =>
    rcases perform_increment h with ⟨_, rfl⟩ | ⟨_, _, _, _, _, _, rfl⟩
    · exact .inl hstores
    · exact .inl (stores_of_insert hstores hd)
  | setText k value ttl =>
    rcases perform_setText h with rfl | ⟨_, rfl⟩
    · exact .inl hstores
    · refine .inl (stores_of_put hstores ?_)
      rintro rfl
      exact hd
  | expire k ttl =>
    rcases perform_expire h with rfl | ⟨e, t, he, rfl⟩ | rfl
    · exact .inl hstores
    · exact .inl (stores_of_redated he hstores)
    · exact .inl (stores_of_drop hstores)
  | delete k =>
    rcases perform_delete h with rfl | rfl
    · exact .inl hstores
    · exact .inl (stores_of_drop hstores)
  | deletePattern pattern =>
    obtain ⟨e, he, hdatum⟩ := hstores
    rcases (perform_deletePattern h).2 key with heq | hgone
    · rw [heq] at he
      exact .inl ⟨e, he, hdatum⟩
    · rw [hgone] at he
      cases he
  | tryLock k token ttl =>
    rcases perform_tryLock h with ⟨_, rfl⟩ | ⟨_, _, rfl⟩
    · exact .inl hstores
    · refine .inl (stores_of_put hstores ?_)
      rintro rfl
      exact hd
  | unlock k token =>
    rcases perform_unlock h with ⟨_, rfl⟩ | ⟨_, rfl⟩ | ⟨_, rfl⟩
    · exact .inl hstores
    · exact .inl (stores_of_drop hstores)
    · exact .inl (stores_of_settle hstores)
  | cardinality k =>
    rw [(perform_cardinality h).1] at hstores
    exact .inl hstores
  | getText k =>
    rw [(perform_getText h).1] at hstores
    exact .inl hstores
  | getFields k =>
    rw [perform_getFields h] at hstores
    exact .inl hstores
  | scan start =>
    rw [perform_scan h] at hstores
    exact .inl hstores

/-! ### What calls see -/

/-- A call reports a collection under a key as empty. -/
def ReportsEmpty (s : CoordStore) (now : Moment) (key : String) : Prop :=
  s.perform now (.cardinality key) = .ok (.ok 0, s) ∨
    s.perform now (.getFields key) = .ok (.ok ∅, s)

/-- The calls that look for keys do not find a key. -/
structure Unseen (s : CoordStore) (now : Moment) (key : String) : Prop where
  scan (start : String) :
    ∃ keys, s.perform now (.scan start) = .ok (.ok keys, s) ∧ key ∉ keys
  delete : s.perform now (.delete key) = .ok (.ok false, s.drop key)
  expire (ttl : Duration) : s.perform now (.expire key ttl) = .ok (.ok false, s.drop key)
  tryLock (token : String) (ttl : Duration) :
    s.perform now (.tryLock key token ttl) =
      (now.after ttl).map fun t => (.ok true, s.put key ⟨.text token, some t⟩)

theorem Vacant.unseen (h : s.Vacant now key) : s.Unseen now key where
  scan start := by
    refine ⟨_, perform_scan_eq h.available, fun hmem => ?_⟩
    simp [mem_liveKeys, h.free] at hmem
  delete := by
    simp [CoordStore.perform, CoordStore.delete, whenAvailable, h.available, h.free]
  expire ttl := by
    simp [CoordStore.perform, CoordStore.expire, h.available, h.free]
  tryLock token ttl := by
    simp [CoordStore.perform, CoordStore.tryLock, h.available, h.free]

/-- What is reported as empty can be reached. -/
theorem available_of_reportsEmpty (h : s.ReportsEmpty now key) : s.available = true := by
  by_contra hoff
  unfold ReportsEmpty at h
  rw [perform_unreachable (Bool.eq_false_iff.mpr hoff),
    perform_unreachable (Bool.eq_false_iff.mpr hoff)] at h
  rcases h with h | h <;> cases h

/-- What is reported as empty is not there, unless it is an empty collection. -/
theorem vacant_of_reportsEmpty (h : s.ReportsEmpty now key)
    (hnone : ∀ d : Datum, d.IsEmpty → ¬ s.Stores key d) : s.Vacant now key := by
  have havailable := available_of_reportsEmpty h
  refine ⟨havailable, ?_⟩
  rcases h with hcount | hfields
  · have hsize : (s.members now key).map (·.size) = .ok 0 := by
      simpa [perform, cardinality, whenAvailable, havailable] using hcount
    cases hlive : s.live? now key with
    | none => rfl
    | some e =>
      cases hm : s.members now key with
      | error err => rw [hm] at hsize; cases hsize
      | ok m =>
        rw [hm] at hsize
        have hempty : m = ∅ := Std.ExtTreeMap.eq_empty_iff_size_eq_zero.mpr (Except.ok.inj hsize)
        have hstores := stores_of_live? hlive
        rw [datum_of_members hm hlive] at hstores
        exact absurd hstores (hnone _ hempty)
  · rcases live?_or_stores_of_hash (perform_getFields_ok hfields) with hfree | hstores
    · exact hfree
    · exact absurd hstores (hnone _ rfl)

end CoordStore

/-! ### Runs -/

namespace CoordRun

variable {σ : CoordRun} {x : CoordStep} {steps : List CoordStep} {key : String} {d : Datum}

/-- One of these steps sets no fields under a key and makes a hash by it. -/
def MakesEmptyHash (σ : CoordRun) (steps : List CoordStep) (key : String) : Prop :=
  ∃ before now rest, steps = before ++ .call now (.setFields key []) :: rest ∧
    (σ.after before).store.Vacant now key

theorem MakesEmptyHash.cons (h : (σ.step x).MakesEmptyHash steps key) :
    σ.MakesEmptyHash (x :: steps) key := by
  obtain ⟨before, now, rest, rfl, hvacant⟩ := h
  exact ⟨x :: before, now, rest, rfl, hvacant⟩

/-- What is empty after one step was empty before it, or the step made it. -/
theorem stores_of_step (hstores : (σ.step x).store.Stores key d) (hd : d.IsEmpty) :
    σ.store.Stores key d ∨
      (∃ now, x = .call now (.setFields key []) ∧ σ.store.Vacant now key) ∧ d = .hash ∅ := by
  cases x with
  | switch available patternDelete => exact .inl hstores
  | call now call =>
    cases hp : σ.store.perform now call with
    | error o =>
      rw [step_overflowed hp] at hstores
      exact .inl hstores
    | ok reply =>
      obtain ⟨answer, s'⟩ := reply
      rw [step_answered hp] at hstores
      rcases CoordStore.stores_of_perform hp hstores hd with hold | ⟨rfl, hvacant, hhash⟩
      · exact .inl hold
      · exact .inr ⟨⟨now, rfl, hvacant⟩, hhash⟩

/-- What is empty after a run was empty before it, or a step of the run made it. -/
theorem stores_of_after (hstores : (σ.after steps).store.Stores key d) (hd : d.IsEmpty) :
    σ.store.Stores key d ∨ σ.MakesEmptyHash steps key ∧ d = .hash ∅ := by
  induction steps generalizing σ with
  | nil => exact .inl hstores
  | cons x steps ih =>
    -- Look back from the end: past the other steps first, and then past this one.
    rcases ih hstores with hold | ⟨hmakes, hhash⟩
    · rcases stores_of_step hold hd with hold | ⟨⟨now, rfl, hvacant⟩, hhash⟩
      · exact .inl hold
      · exact .inr ⟨⟨[], now, steps, rfl, hvacant⟩, hhash⟩
    · exact .inr ⟨hmakes.cons, hhash⟩

/-- The store that steps lead to from an empty one. -/
def reached (steps : List CoordStep) : CoordStore := (({} : CoordRun).after steps).store

/-- Whatever happens to a store that was empty at first, an empty collection in it is a hash, and
    comes from a call that set no fields under a key where nothing was; and such a call does
    leave one. Under all other keys there is never anything empty, live or not: what is reported
    as empty there is not seen by the calls that look for keys. -/
theorem no_empty_collections (steps : List CoordStep) (key : String) :
    (∀ d : Datum, d.IsEmpty → (reached steps).Stores key d →
      d = .hash ∅ ∧ ({} : CoordRun).MakesEmptyHash steps key) ∧
    (¬ ({} : CoordRun).MakesEmptyHash steps key → ∀ now,
      (reached steps).ReportsEmpty now key → (reached steps).Unseen now key) ∧
    ∀ now, (reached steps).Vacant now key →
      (reached (steps ++ [.call now (.setFields key [])])).live? now key =
        some ⟨.hash ∅, none⟩ := by
  have hempty : ∀ d : Datum, d.IsEmpty → (reached steps).Stores key d →
      d = .hash ∅ ∧ ({} : CoordRun).MakesEmptyHash steps key := by
    intro d hd hstores
    rcases stores_of_after hstores hd with ⟨e, he, -⟩ | ⟨hmakes, hhash⟩
    · -- At first nothing is stored.
      cases he
    · exact ⟨hhash, hmakes⟩
  refine ⟨hempty, ?_, ?_⟩
  · intro hnone now hreports
    refine (CoordStore.vacant_of_reportsEmpty hreports ?_).unseen
    intro d hd hstores
    exact hnone (hempty d hd hstores).2
  · intro now hvacant
    have hstep : reached (steps ++ [.call now (.setFields key [])]) =
        (reached steps).put key ⟨.hash ∅, none⟩ := by
      rw [reached, after_append]
      exact congrArg CoordRun.store (step_answered hvacant.perform)
    rw [hstep]
    exact CoordStore.live?_eq_some.mpr ⟨CoordStore.entries_put_self, rfl⟩

/-- A set is emptied again, and no fields are set under another key. -/
def emptied : List CoordStep :=
  [.call 0 (.addMember "z" "a" 1.0), .call 1 (.removeMember "z" "a"), .call 2 (.setFields "h" [])]

theorem no_empty_collections_emptied :
    (reached emptied).ReportsEmpty 3 "z" ∧ (reached emptied).Unseen 3 "z" ∧
      (reached emptied).Stores "h" (.hash ∅) ∧ ({} : CoordRun).MakesEmptyHash emptied "h" ∧
      (reached (emptied ++ [.call 3 (.setFields "z" [])])).live? 3 "z" =
        some ⟨.hash ∅, none⟩ := by
  have hreports : (reached emptied).ReportsEmpty 3 "z" := .inl rfl
  have hnone : ¬ ({} : CoordRun).MakesEmptyHash emptied "z" := by
    rintro ⟨before, now, rest, heq, -⟩
    have hmem : CoordStep.call now (.setFields "z" []) ∈ emptied := by simp [heq]
    simp [emptied] at hmem
  have hstores : (reached emptied).Stores "h" (.hash ∅) := ⟨_, rfl, rfl⟩
  exact ⟨hreports, (no_empty_collections emptied "z").2.1 hnone 3 hreports, hstores,
    ((no_empty_collections emptied "h").1 (.hash ∅) rfl hstores).2,
    (no_empty_collections emptied "z").2.2 3 ⟨rfl, rfl⟩⟩

/-- A key under which no fields were set is reported as empty, and is seen all the same. -/
theorem empty_collection_seen :
    ∃ e, (reached [.call 0 (.setFields "h" [])]).live? 0 "h" = some e ∧ e.datum.IsEmpty ∧
      (reached [.call 0 (.setFields "h" [])]).ReportsEmpty 0 "h" ∧
      (∃ s', (reached [.call 0 (.setFields "h" [])]).perform 0 (.scan "") =
        .ok (.ok ["h"], s')) ∧
      ∃ s', (reached [.call 0 (.setFields "h" [])]).perform 0 (.delete "h") =
        .ok (.ok true, s') :=
  ⟨⟨.hash ∅, none⟩, rfl, rfl, .inr rfl, ⟨_, rfl⟩, ⟨_, rfl⟩⟩

end CoordRun

end ExecutionControl
