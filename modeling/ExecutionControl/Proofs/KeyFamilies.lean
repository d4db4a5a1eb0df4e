import ExecutionControl.Key
import Mathlib.Logic.Function.Basic

/-! # Families of keys

    The keys of one kind are told apart by their organisation, and keys of two kinds are
    never the same, whatever text names the organisations: the fixed part in front of it
    differs in a character that no name can change.

    The key of an execution joins two names with a colon, which either of them may contain.
    Two executions have the same key exactly if one text was split at two of its colons
    (`execution_eq_iff`).
-/

namespace ExecutionControl.Key

/-! ### One family -/

theorem orgSlots_injective : Function.Injective orgSlots := by
  intro o p h
  unfold orgSlots at h
  simpa using h

theorem orgLock_injective : Function.Injective orgLock := by
  intro o p h
  unfold orgLock at h
  simpa using h

theorem limitCache_injective : Function.Injective limitCache := by
  intro o p h
  unfold limitCache at h
  simpa using h

/-! ### Two families -/

/-- Two texts that start with different characters at one place stay different, whatever
    follows. -/
theorem append_ne_append {a b : String} (i : Nat) (ha : i < a.length) (hb : i < b.length)
    (h : a.toList[i]? ≠ b.toList[i]?) (o p : String) : a ++ o ≠ b ++ p := by
  intro heq
  have hchar := congrArg (fun s : String => s.toList[i]?) heq
  simp only [String.toList_append] at hchar
  rw [List.getElem?_append_left (by rwa [String.length_toList]),
    List.getElem?_append_left (by rwa [String.length_toList])] at hchar
  exact h hchar

@[simp] theorem orgSlots_ne_globalSlots (o : String) : orgSlots o ≠ globalSlots := by
  have h := append_ne_append (a := orgSlotsStart) (b := globalSlots) 26
    (by decide) (by decide) (by decide) o ""
  rwa [String.append_empty] at h

@[simp] theorem orgLock_ne_globalSlots (o : String) : orgLock o ≠ globalSlots := by
  have h := append_ne_append (a := orgLockStart) (b := globalSlots) 0
    (by decide) (by decide) (by decide) o ""
  rwa [String.append_empty] at h

@[simp] theorem limitCache_ne_globalSlots (o : String) : limitCache o ≠ globalSlots := by
  have h := append_ne_append (a := limitCacheStart) (b := globalSlots) 0
    (by decide) (by decide) (by decide) o ""
  rwa [String.append_empty] at h

@[simp] theorem orgLock_ne_orgSlots (o p : String) : orgLock o ≠ orgSlots p :=
  append_ne_append 0 (by decide) (by decide) (by decide) o p

@[simp] theorem limitCache_ne_orgSlots (o p : String) : limitCache o ≠ orgSlots p :=
  append_ne_append 0 (by decide) (by decide) (by decide) o p

@[simp] theorem limitCache_ne_orgLock (o p : String) : limitCache o ≠ orgLock p :=
  append_ne_append 0 (by decide) (by decide) (by decide) o p

@[simp] theorem execution_ne_globalSlots (w e : String) : execution w e ≠ globalSlots := by
  have h := append_ne_append (a := executionStart) (b := globalSlots) 0
    (by decide) (by decide) (by decide) (w ++ ":" ++ e) ""
  rwa [String.append_empty, ← String.append_assoc, ← String.append_assoc] at h

/-- No key of an execution is a text that starts with another character. -/
theorem execution_ne_append {start : String} (hstart : 0 < start.length)
    (h : executionStart.toList[0]? ≠ start.toList[0]?) (w e o : String) :
    execution w e ≠ start ++ o := by
  have hne := append_ne_append 0 (by decide) hstart h (w ++ ":" ++ e) o
  rwa [← String.append_assoc, ← String.append_assoc] at hne

@[simp] theorem execution_ne_orgSlots (w e o : String) : execution w e ≠ orgSlots o :=
  execution_ne_append (by decide) (by decide) w e o

@[simp] theorem execution_ne_orgLock (w e o : String) : execution w e ≠ orgLock o :=
  execution_ne_append (by decide) (by decide) w e o

@[simp] theorem execution_ne_limitCache (w e o : String) : execution w e ≠ limitCache o :=
  execution_ne_append (by decide) (by decide) w e o

/-! ### Keys of executions -/

/-- Two pairs of names are one text, which the first pair splits at an earlier colon. -/
def SplitEarlier (w e w' e' : String) : Prop :=
  ∃ between, w' = w ++ ":" ++ between ∧ e = between ++ ":" ++ e'

theorem SplitEarlier.execution_eq {w e w' e' : String} (h : SplitEarlier w e w' e') :
    execution w e = execution w' e' := by
  obtain ⟨between, rfl, rfl⟩ := h
  simp only [execution, String.append_assoc]

/-- If one of two first names is the start of the other, the same text is split at the same
    colon or at a later one. -/
theorem eq_or_splitEarlier {w e w' e' : String} {rest : List Char}
    (hw : w'.toList = w.toList ++ rest) (he : ':' :: e.toList = rest ++ ':' :: e'.toList) :
    w = w' ∧ e = e' ∨ SplitEarlier w e w' e' := by
  cases rest with
  | nil =>
    rw [List.append_nil] at hw
    exact .inl ⟨String.toList_inj.mp hw.symm, String.toList_inj.mp (List.cons.inj he).2⟩
  | cons c between =>
    obtain ⟨rfl, he⟩ := List.cons.inj he
    refine .inr ⟨String.ofList between, String.toList_inj.mp ?_, String.toList_inj.mp ?_⟩
    · simpa using hw
    · simpa using he

/-- Two executions have the same key only if they are the same, or if their names are one text
    that is split at two of its colons. -/
theorem execution_eq_iff {w e w' e' : String} : execution w e = execution w' e' ↔
    w = w' ∧ e = e' ∨ SplitEarlier w e w' e' ∨ SplitEarlier w' e' w e := by
  constructor
  · intro h
    have hchars : w.toList ++ ':' :: e.toList = w'.toList ++ ':' :: e'.toList := by
      have := congrArg String.toList h
      simpa [execution] using this
    rcases List.append_eq_append_iff.mp hchars with ⟨rest, hw, he⟩ | ⟨rest, hw, he⟩
    · exact (eq_or_splitEarlier hw he).imp_right .inl
    · rcases eq_or_splitEarlier hw he with ⟨hw, he⟩ | hsplit
      · exact .inl ⟨hw.symm, he.symm⟩
      · exact .inr (.inr hsplit)
  · rintro (⟨rfl, rfl⟩ | h | h)
    · rfl
    · exact h.execution_eq
    · exact h.execution_eq.symm

/-! ### Keys of slots -/

/-- Whether a key holds slots: those of one organisation or those of the whole system. -/
def IsSlots (key : String) : Prop := key = globalSlots ∨ ∃ o, key = orgSlots o

theorem isSlots_globalSlots : IsSlots globalSlots := Or.inl rfl

theorem isSlots_orgSlots (o : String) : IsSlots (orgSlots o) := Or.inr ⟨o, rfl⟩

theorem IsSlots.ne_orgLock {key : String} (h : IsSlots key) (o : String) : key ≠ orgLock o := by
  rcases h with rfl | ⟨p, rfl⟩
  · exact (orgLock_ne_globalSlots o).symm
  · exact (orgLock_ne_orgSlots o p).symm

theorem IsSlots.ne_limitCache {key : String} (h : IsSlots key) (o : String) :
    key ≠ limitCache o := by
  rcases h with rfl | ⟨p, rfl⟩
  · exact (limitCache_ne_globalSlots o).symm
  · exact (limitCache_ne_orgSlots o p).symm

theorem IsSlots.ne_execution {key : String} (h : IsSlots key) (w e : String) :
    key ≠ execution w e := by
  rcases h with rfl | ⟨p, rfl⟩
  · exact (execution_ne_globalSlots w e).symm
  · exact (execution_ne_orgSlots w e p).symm

theorem not_isSlots_orgLock (o : String) : ¬ IsSlots (orgLock o) := by
  intro h
  exact h.ne_orgLock o rfl

theorem not_isSlots_limitCache (o : String) : ¬ IsSlots (limitCache o) := by
  intro h
  exact h.ne_limitCache o rfl

/-- A key that is taken for the slots of an organisation is the key of its slots. -/
theorem eq_orgSlots_of_orgOfSlots? {key o : String} (h : orgOfSlots? key = some o) :
    key = orgSlots o := by
  unfold orgOfSlots? at h
  split at h
  · rename_i hstart
    simp only [CoordStore.startsWith, List.isPrefixOf_iff_prefix] at hstart
    obtain ⟨rest, hrest⟩ := hstart
    have hdrop : key.toList.drop orgSlotsStart.length = rest := by
      rw [← hrest, ← String.length_toList, List.drop_left]
    simp only [hdrop, Option.ite_none_left_eq_some, Option.some.injEq] at h
    obtain ⟨_, rfl⟩ := h
    apply String.toList_inj.mp
    simp [orgSlots, ← hrest]
  · cases h

end ExecutionControl.Key
