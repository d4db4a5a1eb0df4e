import ExecutionControl.Proofs.Admission.Operations
import ExecutionControl.Proofs.CoordinationCalls
import ExecutionControl.Proofs.Floats.Order
import ExecutionControl.Proofs.KeyFamilies
import Mathlib.Data.Finset.Card

/-! # What a history says of the slots

    The operations that have ended, one after another, say which executions are live: those
    whose admission still counts and that were not given back. `Coupled` relates this to
    the sets of slots. Each set is purged by other operations and at other times, so that
    it may hold more than the live executions; it never lacks one, and whatever it holds
    too much is stale. `Coupled.purge` keeps that up, and a set that was just purged holds
    the live executions and no others (`Coupled.size_orgSlots`, `Coupled.size_globalSlots`).
-/

namespace ExecutionControl

/-! ### Exact times -/

/-- A point in time as an exact number, in nanoseconds since the epoch. -/
def Timestamp.exact (t : Timestamp) : Int := t.secs * 1000000000 + t.nanos

/-- Later times have no lower scores, however they are rounded. -/
theorem Timestamp.score_mono {t now : Timestamp} (h : t.exact ≤ now.exact) :
    t.score ≤ now.score := by
  have hmillis : t.toMillis ≤ now.toMillis := by
    unfold exact at h
    unfold toMillis
    omega
  exact Binary64.div_thousand_mono (Binary64.ofInt_mono hmillis)

/-- Whether a slot that was taken at `t` still counts. -/
def Admission.Counts (a : Admission) (t now : Timestamp) : Prop :=
  now.exact - a.config.slotRetention.nanos < t.exact

instance (a : Admission) (t now : Timestamp) : Decidable (a.Counts t now) :=
  inferInstanceAs (Decidable (_ < _))

/-! ### Histories -/

/-- The time that an operation is given. -/
def Operation.at? : Operation → Option Timestamp
  | .tryAdmit _ now => some now
  | .usage _ now => some now
  | .sweepOrg _ now => some now
  | .sweepAll now => some now
  | _ => none

/-- The organisation and the execution that an operation is about. -/
def Operation.about? : Operation → Option (String × String)
  | .tryAdmit c _ => some (c.orgId, c.executionId)
  | .release orgId executionId => some (orgId, executionId)
  | _ => none

/-- An operation that has ended. -/
structure Completed where
  op : Operation
  result : op.Result

/-- The operations that have ended, the latest first. -/
abbrev History := List Completed

/-- When an execution was last admitted after the check, if it was not given back since. -/
def History.admittedAt (orgId executionId : String) : History → Option Timestamp
  | [] => none
  | ⟨.tryAdmit c now, .ok (.admitted false)⟩ :: past =>
    if c.orgId = orgId ∧ c.executionId = executionId then some now
    else admittedAt orgId executionId past
  | ⟨.release o e, _⟩ :: past =>
    if o = orgId ∧ e = executionId then none else admittedAt orgId executionId past
  | _ :: past => admittedAt orgId executionId past

/-- The operations of a history, without their results. -/
def History.ops (h : History) : List Operation := h.map fun x => x.op

/-- The executions that a history speaks of, with their organisations. -/
def History.executions (h : History) : List (String × String) := h.ops.filterMap Operation.about?

/-- The times of the operations of a history. -/
def History.times (h : History) : List Timestamp := h.ops.filterMap Operation.at?

namespace Admission

/-- Whether an execution is live for an organisation. -/
def Live (a : Admission) (h : History) (orgId executionId : String) (now : Timestamp) : Prop :=
  ∃ t, h.admittedAt orgId executionId = some t ∧ a.Counts t now

instance (a : Admission) (h : History) (orgId executionId : String) (now : Timestamp) :
    Decidable (a.Live h orgId executionId now) :=
  match hadmitted : h.admittedAt orgId executionId with
  | none => isFalse (by simp [Live, hadmitted])
  | some t => decidable_of_iff (a.Counts t now) (by simp [Live, hadmitted])

/-- The live executions, with their organisations. -/
def live (a : Admission) (h : History) (now : Timestamp) : Finset (String × String) :=
  h.executions.toFinset.filter fun q => a.Live h q.1 q.2 now

/-- How many executions are live for an organisation. -/
def orgCount (a : Admission) (h : History) (orgId : String) (now : Timestamp) : Nat :=
  ((a.live h now).filter fun q => q.1 = orgId).card

/-- How many executions are live over all organisations. -/
def globalCount (a : Admission) (h : History) (now : Timestamp) : Nat := (a.live h now).card

end Admission

namespace History

variable {a : Admission} {h : History} {o e : String} {t now : Timestamp}

/-- What a history says of an execution it says at some point. -/
theorem mem_of_admittedAt (hadmitted : h.admittedAt o e = some t) :
    (o, e) ∈ h.executions ∧ t ∈ h.times := by
  -- A history speaks of whatever the history before its last operation spoke of.
  have hcons : ∀ (x : Completed) (past : History), (o, e) ∈ past.executions ∧ t ∈ past.times →
      (o, e) ∈ History.executions (x :: past) ∧ t ∈ History.times (x :: past) := by
    intro x past ⟨hexec, htime⟩
    simp only [executions, times, ops, List.map_cons, List.filterMap_cons]
    constructor
    · split
      · exact hexec
      · exact List.mem_cons_of_mem _ hexec
    · split
      · exact htime
      · exact List.mem_cons_of_mem _ htime
  fun_induction admittedAt o e h with
  | case1 => cases hadmitted
  | case2 c n past heq =>
    obtain ⟨rfl, rfl⟩ := heq
    cases hadmitted
    exact ⟨List.mem_cons_self, List.mem_cons_self⟩
  | case3 c n past hne ih => exact hcons _ past (ih hadmitted)
  | case4 o' e' result past heq => cases hadmitted
  | case5 o' e' result past hne ih => exact hcons _ past (ih hadmitted)
  | case6 x past _ _ ih => exact hcons _ past (ih hadmitted)

theorem mem_live {q : String × String} : q ∈ a.live h now ↔ a.Live h q.1 q.2 now := by
  unfold Admission.live
  rw [Finset.mem_filter, List.mem_toFinset]
  refine ⟨fun hq => hq.2, fun hlive => ⟨?_, hlive⟩⟩
  obtain ⟨t, hadmitted, _⟩ := hlive
  exact (mem_of_admittedAt hadmitted).1

end History

/-! ### The sets of slots beside a history -/

/-- Whether an execution that its organisation owns has its slot in the set under a key. -/
def HasSlotIn (owner : String → String) (key e : String) : Prop :=
  key = Key.orgSlots (owner e) ∨ key = Key.globalSlots

instance (owner : String → String) (key e : String) : Decidable (HasSlotIn owner key e) :=
  inferInstanceAs (Decidable (_ ∨ _))

/-- Change both sets in which an execution has its slots. -/
def changeSlots (owner : String → String) (e : String) (change : Members → Members)
    (sets : String → Members) : String → Members :=
  Function.update
    (Function.update sets (Key.orgSlots (owner e)) (change (sets (Key.orgSlots (owner e)))))
    Key.globalSlots (change (sets Key.globalSlots))

/-- When an execution was last admitted for the organisation that owns it. -/
def History.admitted (owner : String → String) (h : History) (e : String) : Option Timestamp :=
  h.admittedAt (owner e) e

namespace Admission

/-- How the sets of slots relate to the times of the latest admissions, after operations at
    `times`. -/
structure Coupled (a : Admission) (owner : String → String)
    (admitted : String → Option Timestamp) (times : List Timestamp)
    (sets : String → Members) : Prop where
  /-- A slot is scored with the time of the latest admission. -/
  scored : ∀ key, Key.IsSlots key → ∀ (e : String) (score : Float),
    (sets key)[e]? = some score →
      HasSlotIn owner key e ∧ ∃ t, admitted e = some t ∧ score = t.score
  /-- A slot that has counted all the time is there. -/
  kept : ∀ (key e : String) (t : Timestamp), HasSlotIn owner key e → admitted e = some t →
    (∀ now ∈ times, a.Counts t now) → (sets key)[e]? = some t.score

/-- Whether a set holds only slots that count now. -/
def Fresh (a : Admission) (admitted : String → Option Timestamp) (now : Timestamp)
    (m : Members) : Prop :=
  ∀ (e : String) (score : Float), m[e]? = some score → ∃ t, admitted e = some t ∧ a.Counts t now

/-- The time of an operation is the latest, and its cutoff tells the slots that count now
    from those that do not. -/
structure Clocked (a : Admission) (admitted : String → Option Timestamp)
    (times : List Timestamp) (now : Timestamp) : Prop where
  mem : now ∈ times
  latest : ∀ t ∈ times, t.exact ≤ now.exact
  exact : ∀ e t, admitted e = some t → (t.score > a.cutoff now ↔ a.Counts t now)

variable {a : Admission} {owner : String → String} {admitted : String → Option Timestamp}
  {times : List Timestamp} {sets : String → Members} {now t : Timestamp} {key e o : String}

theorem Coupled.start : a.Coupled owner (fun _ => none) [] fun _ => ∅ where
  scored key _ e score hmem := by
    rw [Std.ExtTreeMap.getElem?_empty] at hmem
    cases hmem
  kept key e t _ ht := by cases ht

/-- More time may have passed. -/
theorem Coupled.later (h : a.Coupled owner admitted times sets) (now : Timestamp) :
    a.Coupled owner admitted (now :: times) sets where
  scored := h.scored
  kept key e t hkey ht hcounts :=
    h.kept key e t hkey ht fun n hn => hcounts n (List.mem_cons_of_mem now hn)

/-- A slot that counts at the latest time has counted all the time. -/
theorem Clocked.counts (h : a.Clocked admitted times now) (hcounts : a.Counts t now) :
    ∀ n ∈ times, a.Counts t n := by
  intro n hn
  have hle := h.latest n hn
  unfold Counts at hcounts ⊢
  omega

/-! ### Stale slots -/

/-- No score lies below the lowest one. -/
theorem not_lt_lowestScore (x : Float) : ¬ x < lowestScore := by
  intro hlt
  have hlowest : lowestScore.toModel.unpack = .infinity .negative := by rfl
  have hcompare : x.toModel.unpack.compare lowestScore.toModel.unpack = some .lt := by
    simpa [LT.lt, Float.lt, Float.Model.lt, Float.Model.UnpackedFloat.lt] using hlt
  rw [hlowest] at hcompare
  generalize x.toModel.unpack = u at hcompare
  -- Nothing compares below minus infinity, whatever kind of number it is.
  rcases u with sign | _ | sign | ⟨sign, mantissa, exponent, hpos⟩
  · cases sign <;> cases hcompare
  · cases hcompare
  · cases hcompare
  · cases hcompare

/-- What counts at a time has counted before. -/
theorem cutoff_lt_of_le {score : Float} (h : t.exact ≤ now.exact) (hscore : score > a.cutoff now) :
    score > a.cutoff t :=
  Binary64.sub_lt_of_le (Timestamp.score_mono h) hscore

/-- What is left of a set of slots after a purge. -/
def purged (a : Admission) (now : Timestamp) (m : Members) : Members :=
  CoordStore.keptScores lowestScore (a.cutoff now) m

theorem getElem?_purged {m : Members} {score : Float} :
    (a.purged now m)[e]? = some score ↔ m[e]? = some score ∧ score > a.cutoff now := by
  unfold purged
  rw [CoordStore.getElem?_keptScores]
  simp [not_lt_lowestScore]

theorem Coupled.purge (h : a.Coupled owner admitted times sets)
    (hclock : a.Clocked admitted times now) (hkey : Key.IsSlots key) :
    a.Coupled owner admitted times (Function.update sets key (a.purged now (sets key))) where
  scored k hk e score hmem := by
    by_cases hkk : k = key
    · subst hkk
      rw [Function.update_self, getElem?_purged] at hmem
      exact h.scored k hk e score hmem.1
    · rw [Function.update_of_ne hkk] at hmem
      exact h.scored k hk e score hmem
  kept k e t hk ht hcounts := by
    have hmem := h.kept k e t hk ht hcounts
    by_cases hkk : k = key
    · -- A slot that counts now is not purged.
      subst hkk
      rw [Function.update_self, getElem?_purged]
      exact ⟨hmem, (hclock.exact e t ht).mpr (hcounts now hclock.mem)⟩
    · rw [Function.update_of_ne hkk]
      exact hmem

/-- A set that was just purged is fresh. -/
theorem Coupled.fresh_purged (h : a.Coupled owner admitted times sets)
    (hclock : a.Clocked admitted times now) (hkey : Key.IsSlots key) :
    a.Fresh admitted now (a.purged now (sets key)) := by
  intro e score hmem
  obtain ⟨hbefore, hscore⟩ := getElem?_purged.mp hmem
  obtain ⟨_, t, ht, rfl⟩ := h.scored key hkey e score hbefore
  exact ⟨t, ht, (hclock.exact e t ht).mp hscore⟩

/-- A fresh set holds the slots that count, and no others. -/
theorem Coupled.mem_iff (h : a.Coupled owner admitted times sets)
    (hclock : a.Clocked admitted times now) (hkey : Key.IsSlots key)
    (hfresh : a.Fresh admitted now (sets key)) :
    e ∈ sets key ↔ HasSlotIn owner key e ∧ ∃ t, admitted e = some t ∧ a.Counts t now := by
  rw [Std.ExtTreeMap.mem_iff_isSome_getElem?, Option.isSome_iff_exists]
  constructor
  · rintro ⟨score, hmem⟩
    exact ⟨(h.scored key hkey e score hmem).1, hfresh e score hmem⟩
  · rintro ⟨hslot, t, ht, hcounts⟩
    exact ⟨t.score, h.kept key e t hslot ht (hclock.counts hcounts)⟩

/-! ### Taking slots and giving them back -/

/-- A change that sets the score of one execution, or removes it, does so in the sets where
    it has its slots. -/
theorem getElem?_changeSlots {change : Members → Members} {score : Option Float} {member : String}
    (hchange : ∀ m : Members, (change m)[member]? = if e = member then score else m[member]?) :
    (changeSlots owner e change sets key)[member]? =
      if HasSlotIn owner key e ∧ e = member then score else (sets key)[member]? := by
  unfold changeSlots HasSlotIn
  by_cases hglobal : key = Key.globalSlots
  · subst hglobal
    rw [Function.update_self, hchange]
    simp
  · rw [Function.update_of_ne hglobal]
    by_cases horg : key = Key.orgSlots (owner e)
    · subst horg
      rw [Function.update_self, hchange]
      simp
    · rw [Function.update_of_ne horg]
      simp [hglobal, horg]

/-- An execution that is admitted, or given back, has its slots changed with it. -/
theorem Coupled.change (h : a.Coupled owner admitted times sets) (t? : Option Timestamp)
    {change : Members → Members}
    (hchange : ∀ (m : Members) (member : String),
      (change m)[member]? = if e = member then t?.map Timestamp.score else m[member]?) :
    a.Coupled owner (Function.update admitted e t?) times (changeSlots owner e change sets) where
  scored key hkey member score hmem := by
    rw [getElem?_changeSlots fun m => hchange m member] at hmem
    by_cases hslot : HasSlotIn owner key e ∧ e = member
    · -- The slot of the execution itself, under its new time.
      rw [if_pos hslot] at hmem
      obtain ⟨t, ht, rfl⟩ := Option.map_eq_some_iff.mp hmem
      obtain ⟨hslot, rfl⟩ := hslot
      exact ⟨hslot, t, by rw [Function.update_self, ht], rfl⟩
    · rw [if_neg hslot] at hmem
      obtain ⟨hhas, t, ht, hscore⟩ := h.scored key hkey member score hmem
      have hmember : member ≠ e := by
        rintro rfl
        exact hslot ⟨hhas, rfl⟩
      exact ⟨hhas, t, by rw [Function.update_of_ne hmember, ht], hscore⟩
  kept key member t hhas ht hcounts := by
    rw [getElem?_changeSlots fun m => hchange m member]
    by_cases hmember : member = e
    · subst hmember
      rw [Function.update_self] at ht
      rw [if_pos ⟨hhas, rfl⟩, ht]
      rfl
    · rw [Function.update_of_ne hmember] at ht
      rw [if_neg fun hboth => hmember hboth.2.symm]
      exact h.kept key member t hhas ht hcounts

theorem Coupled.admit (h : a.Coupled owner admitted times sets) (e : String) (now : Timestamp) :
    a.Coupled owner (Function.update admitted e (some now)) times
      (changeSlots owner e (fun m => m.insert e now.score) sets) :=
  h.change (some now) fun m member => by
    rw [Std.ExtTreeMap.getElem?_insert]
    simp

theorem Coupled.release (h : a.Coupled owner admitted times sets) (e : String) :
    a.Coupled owner (Function.update admitted e none) times
      (changeSlots owner e (fun m => m.erase e) sets) :=
  h.change none fun m member => by
    rw [Std.ExtTreeMap.getElem?_erase]
    simp

/-! ### Counting -/

/-- A set is as large as the live executions that it stands for. -/
theorem size_eq_card (owner : String → String) {m : Members} {live : Finset (String × String)}
    (h : ∀ q, q ∈ live ↔ owner q.2 = q.1 ∧ q.2 ∈ m) : m.size = live.card := by
  -- An execution stands in the set once, and is live for its owner only.
  have himage : live = m.keys.toFinset.image fun e => (owner e, e) := by
    ext q
    rw [h, Finset.mem_image]
    constructor
    · rintro ⟨howner, hmem⟩
      exact ⟨q.2, by simpa using hmem, by rw [howner]⟩
    · rintro ⟨e, hmem, rfl⟩
      exact ⟨rfl, by simpa using hmem⟩
  have hinjective : Function.Injective fun e : String => (owner e, e) :=
    fun e e' heq => (Prod.mk.inj heq).2
  rw [himage, Finset.card_image_of_injective _ hinjective,
    List.toFinset_card_of_nodup Std.ExtTreeMap.nodup_keys, Std.ExtTreeMap.length_keys]

variable {h : History}

/-- An execution is live only for the organisation that owns it. -/
theorem live_iff (howner : ∀ q ∈ h.executions, owner q.2 = q.1) :
    a.Live h o e now ↔ owner e = o ∧ ∃ t, h.admitted owner e = some t ∧ a.Counts t now := by
  constructor
  · rintro ⟨t, ht, hcounts⟩
    have hsame : owner e = o := howner _ (History.mem_of_admittedAt ht).1
    exact ⟨hsame, t, by rw [History.admitted, hsame, ht], hcounts⟩
  · rintro ⟨rfl, t, ht, hcounts⟩
    exact ⟨t, ht, hcounts⟩

theorem Coupled.size_orgSlots (hc : a.Coupled owner (h.admitted owner) times sets)
    (hclock : a.Clocked (h.admitted owner) times now)
    (hfresh : a.Fresh (h.admitted owner) now (sets (Key.orgSlots o)))
    (howner : ∀ q ∈ h.executions, owner q.2 = q.1) :
    (sets (Key.orgSlots o)).size = a.orgCount h o now := by
  apply size_eq_card owner
  intro q
  rw [Finset.mem_filter, History.mem_live, live_iff howner,
    hc.mem_iff hclock (Key.isSlots_orgSlots o) hfresh]
  have hslot : HasSlotIn owner (Key.orgSlots o) q.2 ↔ o = owner q.2 := by
    simp [HasSlotIn, Key.orgSlots_injective.eq_iff]
  rw [hslot]
  grind

theorem Coupled.size_globalSlots (hc : a.Coupled owner (h.admitted owner) times sets)
    (hclock : a.Clocked (h.admitted owner) times now)
    (hfresh : a.Fresh (h.admitted owner) now (sets Key.globalSlots))
    (howner : ∀ q ∈ h.executions, owner q.2 = q.1) :
    (sets Key.globalSlots).size = a.globalCount h now := by
  apply size_eq_card owner
  intro q
  rw [History.mem_live, live_iff howner, hc.mem_iff hclock Key.isSlots_globalSlots hfresh]
  have hslot : HasSlotIn owner Key.globalSlots q.2 := Or.inr rfl
  simp [hslot]

end Admission

end ExecutionControl
