import ExecutionControl.Proofs.CoordinationCalls
import ExecutionControl.Proofs.Ensures
import ExecutionControl.Proofs.KeyFamilies

/-! # A store without trouble

    A store that can be reached, whose slots are sorted sets without deadlines, and which
    holds at most one lock of an organisation. `Healthy` says which sets and which lock;
    calls on such a store succeed, and what they leave is again a healthy store.
-/

namespace ExecutionControl

namespace CoordStore

/-- The store can be reached and holds these sets of slots, for good, and at most this lock,
    of an organisation and under a token. -/
structure Healthy (s : CoordStore) (sets : String → Members) (lock : Option (String × String)) :
    Prop where
  available : s.available = true
  slots : ∀ key, Key.IsSlots key →
    s.entries[key]? = none ∧ sets key = ∅ ∨ s.entries[key]? = some ⟨.sortedSet (sets key), none⟩
  locks : ∀ o, s.entries[Key.orgLock o]? = none ∨
    ∃ token deadline, lock = some (o, token) ∧
      s.entries[Key.orgLock o]? = some ⟨.text token, deadline⟩

namespace Healthy

variable {s s' : CoordStore} {sets : String → Members} {lock : Option (String × String)}
  {now : Moment} {key member o token : String}

/-- An empty store that can be reached. -/
theorem of_empty (hentries : s.entries = ∅) (havailable : s.available = true) :
    s.Healthy (fun _ => ∅) none where
  available := havailable
  slots key _ := by
    left
    rw [hentries]
    exact ⟨Std.ExtTreeMap.getElem?_empty, rfl⟩
  locks o := by
    left
    rw [hentries]
    exact Std.ExtTreeMap.getElem?_empty

/-- What is written under other keys than those of slots and locks. -/
theorem of_entries (h : s.Healthy sets lock) (havailable : s'.available = s.available)
    (hslots : ∀ key, Key.IsSlots key → s'.entries[key]? = s.entries[key]?)
    (hlocks : ∀ o, s'.entries[Key.orgLock o]? = s.entries[Key.orgLock o]?) :
    s'.Healthy sets lock where
  available := havailable.trans h.available
  slots key hkey := by
    rw [hslots key hkey]
    exact h.slots key hkey
  locks o := by
    rw [hlocks o]
    exact h.locks o

/-- A cached ceiling that is dropped. -/
theorem drop_limitCache (h : s.Healthy sets lock) (o : String) :
    (s.drop (Key.limitCache o)).Healthy sets lock :=
  h.of_entries rfl (fun _ hkey => entries_drop_of_ne (hkey.ne_limitCache o))
    fun p => entries_drop_of_ne (Key.limitCache_ne_orgLock o p).symm

/-! ### Sets -/

theorem live? (h : s.Healthy sets lock) (hkey : Key.IsSlots key) :
    s.live? now key = none ∧ sets key = ∅ ∨
      s.live? now key = some ⟨.sortedSet (sets key), none⟩ := by
  rcases h.slots key hkey with ⟨hnone, hempty⟩ | hsome
  · exact Or.inl ⟨live?_of_absent hnone, hempty⟩
  · exact Or.inr (live?_eq_some.mpr ⟨hsome, rfl⟩)

theorem members (h : s.Healthy sets lock) (hkey : Key.IsSlots key) :
    s.members now key = .ok (sets key) := by
  unfold CoordStore.members datum?
  rcases h.live? hkey with ⟨hnone, hempty⟩ | hsome
  · rw [hnone, hempty]
    rfl
  · rw [hsome]
    rfl

theorem deadline? (h : s.Healthy sets lock) (hkey : Key.IsSlots key) :
    s.deadline? now key = none := by
  unfold CoordStore.deadline?
  rcases h.live? hkey with ⟨hnone, _⟩ | hsome
  · rw [hnone]
    rfl
  · rw [hsome]
    rfl

theorem putMembers (h : s.Healthy sets lock) (hkey : Key.IsSlots key) (m : Members) :
    (s.putMembers now key m).Healthy (Function.update sets key m) lock where
  available := by
    unfold CoordStore.putMembers
    split <;> exact h.available
  slots k hk := by
    by_cases hkk : k = key
    · subst hkk
      rw [Function.update_self]
      unfold CoordStore.putMembers
      split
      · -- No entry is left of a set that is empty.
        rename_i hm
        exact Or.inl ⟨entries_drop_self, Std.ExtTreeMap.isEmpty_iff.mp hm⟩
      · rw [h.deadline? hk]
        exact Or.inr entries_put_self
    · rw [Function.update_of_ne hkk, entries_putMembers_of_ne hkk]
      exact h.slots k hk
  locks o := by
    rw [entries_putMembers_of_ne (hkey.ne_orgLock o).symm]
    exact h.locks o

theorem perform_removeScores (h : s.Healthy sets lock) (hkey : Key.IsSlots key)
    (low high : Float) :
    s.perform now (.removeScores key low high) =
      .ok (.ok ((sets key).size - (keptScores low high (sets key)).size),
        s.putMembers now key (keptScores low high (sets key))) := by
  rw [perform_memberEdit rfl h.available, CoordCall.subject, h.members hkey]

theorem perform_cardinality (h : s.Healthy sets lock) (hkey : Key.IsSlots key) :
    s.perform now (.cardinality key) = .ok (.ok (sets key).size, s) := by
  simp only [perform, cardinality, whenAvailable, h.available, if_true, h.members hkey]
  rfl

theorem perform_addMember (h : s.Healthy sets lock) (hkey : Key.IsSlots key) (score : Float) :
    s.perform now (.addMember key member score) =
      .ok (.ok (!(sets key).contains member),
        s.putMembers now key ((sets key).insert member score)) := by
  rw [perform_memberEdit rfl h.available, CoordCall.subject, h.members hkey]

theorem perform_removeMember (h : s.Healthy sets lock) (hkey : Key.IsSlots key) :
    s.perform now (.removeMember key member) =
      .ok (.ok ((sets key).contains member),
        s.putMembers now key ((sets key).erase member)) := by
  rw [perform_memberEdit rfl h.available, CoordCall.subject, h.members hkey]

/-! ### Keys -/

theorem perform_scan (h : s.Healthy sets lock) {start : String} :
    s.perform now (.scan start) =
      .ok (.ok ((((s.entries.toList.dropWhile fun p => p.1 < start).takeWhile fun p =>
        startsWith start p.1).filter fun p => p.2.isLive now).map (·.1)), s) := by
  simp only [perform, scan, whenAvailable, h.available, if_true]

theorem perform_delete (h : s.Healthy sets lock) :
    s.perform now (.delete key) = .ok (.ok (s.live? now key).isSome, s.drop key) := by
  simp only [perform, delete, whenAvailable, h.available, if_true]

/-! ### Locks -/

/-- A free lock is taken, unless its time to live reaches beyond the clock. -/
theorem perform_tryLock (h : s.Healthy sets none) {ttl : Duration}
    {answer : Except CoordError Bool}
    (hp : s.perform now (.tryLock (Key.orgLock o) token ttl) = .ok (answer, s')) :
    answer = .ok true ∧ s'.Healthy sets (some (o, token)) := by
  have hfree : s.live? now (Key.orgLock o) = none := by
    rcases h.locks o with hnone | ⟨_, _, hlock, _⟩
    · exact live?_of_absent hnone
    · cases hlock
  simp only [perform, tryLock, h.available, if_true, hfree, Option.isSome_none,
    Bool.false_eq_true, if_false] at hp
  cases hd : now.after ttl with
  | error e => rw [hd] at hp; cases hp
  | ok t =>
    rw [hd] at hp
    cases hp
    refine ⟨rfl, h.available, fun key hkey => ?_, fun o' => ?_⟩
    · rw [entries_put_of_ne (hkey.ne_orgLock o)]
      exact h.slots key hkey
    -- The lock that was taken is the only one.
    · by_cases ho : Key.orgLock o' = Key.orgLock o
      · obtain rfl := Key.orgLock_injective ho
        exact Or.inr ⟨token, some t, rfl, entries_put_self⟩
      · rw [entries_put_of_ne ho]
        rcases h.locks o' with hnone | ⟨_, _, hlock, _⟩
        · exact Or.inl hnone
        · cases hlock

/-- The lock is gone once it is given back, even if its time to live was over. -/
theorem perform_unlock (h : s.Healthy sets (some (o, token))) {answer : Except CoordError Bool}
    (hp : s.perform now (.unlock (Key.orgLock o) token) = .ok (answer, s')) :
    (∃ held, answer = .ok held) ∧ s'.Healthy sets none := by
  -- Both ways to give a lock back leave nothing under its key.
  have hdropped : s'.available = true →
      (∀ key, key ≠ Key.orgLock o → s'.entries[key]? = s.entries[key]?) →
      s'.entries[Key.orgLock o]? = none → s'.Healthy sets none := by
    intro havailable hentries hgone
    refine ⟨havailable, fun key hkey => ?_, fun o' => ?_⟩
    · rw [hentries key (hkey.ne_orgLock o)]
      exact h.slots key hkey
    · left
      by_cases ho : Key.orgLock o' = Key.orgLock o
      · rw [ho]
        exact hgone
      · rw [hentries _ ho]
        rcases h.locks o' with hnone | ⟨_, _, hlock, _⟩
        · exact hnone
        · cases hlock
          exact absurd rfl ho
  simp only [perform, unlock, whenAvailable, h.available, if_true] at hp
  by_cases hheld : s.isHeldBy now (Key.orgLock o) token = true
  · rw [if_pos hheld] at hp
    cases hp
    exact ⟨⟨true, rfl⟩, hdropped h.available (fun key hkey => entries_drop_of_ne hkey)
      entries_drop_self⟩
  · rw [if_neg hheld] at hp
    cases hp
    refine ⟨⟨false, rfl⟩, hdropped ?_ (fun key hkey => entries_settle_of_ne hkey) ?_⟩
    · unfold settle
      split <;> exact h.available
    · -- A lock that is live lies there under this token, for no other lock is there.
      have hdead : s.live? now (Key.orgLock o) = none := by
        rw [Option.eq_none_iff_forall_ne_some]
        intro e he
        obtain ⟨hentry, _⟩ := live?_eq_some.mp he
        rcases h.locks o with hnone | ⟨token', deadline, hlock, htext⟩
        · rw [hnone] at hentry
          cases hentry
        · cases hlock
          rw [htext] at hentry
          cases hentry
          exact hheld (isHeldBy_iff.mpr (by rw [datum?, he]; rfl))
      rw [settle, hdead]
      exact entries_drop_self

end Healthy

end CoordStore

end ExecutionControl
