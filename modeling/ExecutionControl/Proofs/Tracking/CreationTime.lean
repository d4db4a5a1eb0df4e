import ExecutionControl.Proofs.Timestamps
import ExecutionControl.Proofs.Tracking.Unbroken

/-! # The time of creation

    In an unbroken run the record of an execution is stamped once, by the first operation that
    starts a record or by an increment that finds none. From then on every lookup reports that
    time as the time of creation, and never one that is later than the time of change
    (`creation_time_fixed`).

    An update that finds no record makes one without a stamp. Lookups then report the time of
    change instead, which moves with every operation, until a later operation that starts the
    record stamps it after all.
-/

namespace ExecutionControl

open StatusRecord

/-! ### Stamps -/

/-- Whether an operation stamps a record that has no stamp; there may be no record at all. -/
def TrackerOperation.stamps (absent : Bool) : TrackerOperation → Bool
  | .create _ => true
  | .increment _ => absent
  | _ => false

namespace Tracker

namespace History

/-- When a record was stamped. -/
def stamp? : History → Option Timestamp
  | [] => none
  | (op, time) :: earlier =>
    match stamp? earlier with
    | some created => some created
    | none => if op.stamps earlier.isEmpty then some time else none

variable {history earlier : History} {x : TrackerOperation × Timestamp} {created : Timestamp}

/-- A stamp stays. -/
theorem stamp?_cons (h : stamp? earlier = some created) : stamp? (x :: earlier) = some created := by
  simp only [stamp?, h]

theorem stamp?_of_suffix (hsuffix : earlier <:+ history) (h : stamp? earlier = some created) :
    stamp? history = some created := by
  obtain ⟨later, rfl⟩ := hsuffix
  induction later with
  | nil => exact h
  | cons x later ih => exact stamp?_cons ih

/-- A record is stamped with the time of one of its operations. -/
theorem exists_of_stamp? (h : stamp? history = some created) : ∃ x ∈ history, x.2 = created := by
  induction history with
  | nil => cases h
  | cons x earlier ih =>
    simp only [stamp?] at h
    cases hearlier : stamp? earlier with
    | some stamped =>
      simp only [hearlier, Option.some.injEq] at h
      obtain ⟨y, hy, hcreated⟩ := ih (hearlier.trans (congrArg some h))
      exact ⟨y, List.mem_cons_of_mem _ hy, hcreated⟩
    | none =>
      simp only [hearlier] at h
      split at h
      · exact ⟨x, List.mem_cons_self, Option.some.inj h⟩
      · cases h

end History

/-! ### The two times of a record -/

/-- The fields of a record with a history hold its stamp, if it has one, and the time of an
    operation that did not come before the stamp. -/
structure Dated (history : History) (f : Fields) : Prop where
  contains_status : f.contains statusField
  created : f[createdField]? = history.stamp?.map Timestamp.offsetText
  updated : ∃ x ∈ history, f[updatedField]? = some x.2.offsetText ∧
    ∀ created, history.stamp? = some created → created ≤ x.2

section Steps

variable {op : TrackerOperation} {key : String} {time created : Timestamp} {f : Fields}
  {history earlier : History}

/-- No stamp is later than the last operation. -/
theorem History.stamp?_le (hlater : ∀ x ∈ earlier, x.2 ≤ time)
    (h : stamp? ((op, time) :: earlier) = some created) : created ≤ time := by
  obtain ⟨x, hx, rfl⟩ := exists_of_stamp? h
  rcases List.mem_cons.mp hx with rfl | hx
  · exact Timestamp.le_refl _
  · exact hlater x hx

/-- An operation that starts a record keeps the time of creation, if there is one. -/
theorem times_create (key : String) (n : Nat) (time : Timestamp) (f : Fields) :
    ((TrackerOperation.create n).edit key time f)[createdField]? =
        some (f[createdField]?.getD time.offsetText) ∧
      ((TrackerOperation.create n).edit key time f)[updatedField]? = some time.offsetText := by
  constructor
  · rw [TrackerOperation.edit, getElem?_insert_of_ne (by decide), getElem?_insert_of_ne (by decide),
      getElem?_insertIfNew_self, getElem?_insertIfNew_of_ne (by decide),
      getElem?_insertIfNew_of_ne (by decide), getElem?_insertIfNew_of_ne (by decide)]
  · rw [TrackerOperation.edit, Std.ExtTreeMap.getElem?_insert_self]

/-- An update leaves the time of creation as it is. -/
theorem times_update (key : String) {value : StatusValue} (time : Timestamp) (f : Fields)
    (hop : (TrackerOperation.update value).Writes) :
    ((TrackerOperation.update value).edit key time f)[createdField]? = f[createdField]? ∧
      ((TrackerOperation.update value).edit key time f)[updatedField]? = some time.offsetText := by
  obtain ⟨status, hvalue⟩ := hop
  simp only [TrackerOperation.edit, hvalue]
  constructor
  · rw [getElem?_insert_of_ne (by decide), getElem?_insert_of_ne (by decide)]
  · rw [Std.ExtTreeMap.getElem?_insert_self]

/-- An increment that finds no record starts one, and its counter can go up from zero. -/
theorem times_increment_first (key : String) (c : Counter) (time : Timestamp) :
    ((TrackerOperation.increment c).edit key time ∅)[createdField]? = some time.offsetText ∧
      ((TrackerOperation.increment c).edit key time ∅)[updatedField]? = some time.offsetText := by
  have hcreated : (TrackerOperation.seed time ∅)[createdField]? = some time.offsetText := by
    rw [TrackerOperation.seed, if_neg (by simp), getElem?_insertIfNew_self,
      getElem?_insertIfNew_of_ne (by decide)]
    simp
  have hnone : (TrackerOperation.seed time ∅)[c.field]? = none := by
    rw [TrackerOperation.getElem?_seed (by cases c <;> decide) (by cases c <;> decide)]
    simp
  have hzero : CoordStore.counter (TrackerOperation.seed time ∅) key c.field = .ok 0 := by
    simp only [CoordStore.counter, hnone]
  constructor
  · rw [TrackerOperation.edit,
      TrackerOperation.getElem?_countUp (by cases c <;> decide) (by decide), hcreated]
  · simp only [TrackerOperation.edit, TrackerOperation.countUp, hzero]
    rw [if_pos (by decide), Std.ExtTreeMap.getElem?_insert_self]

/-- An operation that finds no record. -/
theorem dated_first (key : String) (time : Timestamp) (hop : op.Writes) :
    Dated [(op, time)] (op.edit key time ∅) := by
  have hempty : (∅ : Fields)[createdField]? = none := by simp
  refine ⟨TrackerOperation.contains_status_edit key time ∅ hop, ?_, (op, time),
    List.mem_cons_self, ?_, fun _ => History.stamp?_le (by simp)⟩
  · cases op with
    | create n =>
      rw [(times_create key n time ∅).1, hempty]
      rfl
    | update value =>
      rw [(times_update key time ∅ hop).1, hempty]
      rfl
    | increment c =>
      rw [(times_increment_first key c time).1]
      rfl
    | delete => exact hop.elim
  · cases op with
    | create n => exact (times_create key n time ∅).2
    | update value => exact (times_update key time ∅ hop).2
    | increment c => exact (times_increment_first key c time).2
    | delete => exact hop.elim

/-- An operation on a record that is there. -/
theorem Dated.edit (key : String) (h : Dated earlier f) (hop : op.Writes)
    (hlater : ∀ x ∈ earlier, x.2 ≤ time) :
    Dated ((op, time) :: earlier) (op.edit key time f) := by
  have hcontains := TrackerOperation.contains_status_edit key time f hop
  have hle : ∀ created, History.stamp? ((op, time) :: earlier) = some created → created ≤ time :=
    fun _ => History.stamp?_le hlater
  obtain ⟨y, hy, hupdated, hle_y⟩ := h.updated
  cases op with
  | create n =>
    obtain ⟨hcreated, hchanged⟩ := times_create key n time f
    refine ⟨hcontains, ?_, _, List.mem_cons_self, hchanged, hle⟩
    rw [hcreated, h.created, History.stamp?]
    cases History.stamp? earlier <;> rfl
  | update value =>
    obtain ⟨hcreated, hchanged⟩ := times_update key time f hop
    refine ⟨hcontains, ?_, _, List.mem_cons_self, hchanged, hle⟩
    rw [hcreated, h.created, History.stamp?]
    cases History.stamp? earlier <;> rfl
  | increment c =>
    -- Only an increment that starts the record stamps it.
    have hthere : earlier.isEmpty = false := by
      rw [List.isEmpty_eq_false_iff]
      exact List.ne_nil_of_mem hy
    have hstamp : History.stamp? ((.increment c, time) :: earlier) = History.stamp? earlier := by
      simp only [History.stamp?, TrackerOperation.stamps, hthere]
      cases History.stamp? earlier <;> rfl
    refine ⟨hcontains, ?_, ?_⟩
    all_goals rw [TrackerOperation.edit, TrackerOperation.seed_of_contains time h.contains_status]
    · rw [TrackerOperation.getElem?_countUp (by cases c <;> decide) (by decide), h.created, hstamp]
    · -- Where the counter cannot go up, the time of change stays what it was.
      rcases TrackerOperation.countUp_updated key c.field time f with hchanged | hsame
      · exact ⟨_, List.mem_cons_self, hchanged, hle⟩
      · rw [hsame]
        exact ⟨y, List.mem_cons_of_mem _ hy, hupdated,
          fun _ hcreated => hle_y _ (hstamp ▸ hcreated)⟩
  | delete => exact hop.elim

end Steps

/-- Every history that is in order leaves a record with its stamp. -/
theorem dated_fields {history : History} (key : String) (hwrites : ∀ x ∈ history, x.1.Writes)
    (hordered : history.Pairwise fun later earlier => earlier.2 ≤ later.2) (hne : history ≠ []) :
    Dated history (history.fields key) := by
  induction history with
  | nil => exact absurd rfl hne
  | cons x earlier ih =>
    obtain ⟨hlater, hordered⟩ := List.pairwise_cons.mp hordered
    have hop := hwrites x List.mem_cons_self
    cases earlier with
    | nil => exact dated_first key x.2 hop
    | cons y rest =>
      have hdated := ih (fun z hz => hwrites z (List.mem_cons_of_mem _ hz)) hordered (by simp)
      exact hdated.edit key hop hlater

/-! ### Lookups -/

variable {workflowId executionId : String} {f : Fields} {now : Timestamp} {r : StatusRecord}
  {history : History}

/-- What a lookup reads of the two times. -/
theorem times_of_ofFields (h : ofFields workflowId executionId f now = .ok r) :
    r.updatedAt = (readTime? f updatedField).getD now ∧
      r.createdAt = (readTime? f createdField).getD r.updatedAt := by
  simp only [ofFields, bind, Except.bind] at h
  split at h
  · cases h
  · split at h
    · cases h
    · split at h
      · cases h
      · split at h
        · cases h
        · cases h
          exact ⟨rfl, rfl⟩

/-- A lookup of a record with a history reports its stamp, or else the time of change. -/
theorem Dated.reported (h : Dated history f) (hwritable : ∀ x ∈ history, x.2.Writable)
    (hreading : reading workflowId executionId f now = .found r) :
    r.createdAt = history.stamp?.getD r.updatedAt ∧ r.createdAt ≤ r.updatedAt := by
  obtain ⟨x, hx, hupdated, hle⟩ := h.updated
  have hrecord : ofFields workflowId executionId f now = .ok r := by
    unfold reading at hreading
    split at hreading
    · cases hreading
    · split at hreading
      · rename_i hr
        cases hreading
        exact hr
      · cases hreading
  obtain ⟨hupdatedAt, hcreatedAt⟩ := times_of_ofFields hrecord
  -- The two times are read back as they were written.
  have hchange : r.updatedAt = x.2 := by
    rw [hupdatedAt, readTime?, hupdated, Option.bind_some,
      Timestamp.readStrict_offsetText (hwritable x hx), Option.getD_some]
  have hstamp : r.createdAt = history.stamp?.getD r.updatedAt := by
    rw [hcreatedAt, readTime?, h.created]
    cases hcreated : history.stamp? with
    | none => rfl
    | some created =>
      obtain ⟨y, hy, rfl⟩ := History.exists_of_stamp? hcreated
      rw [Option.map_some, Option.bind_some, Timestamp.readStrict_offsetText (hwritable y hy)]
  refine ⟨hstamp, ?_⟩
  rw [hstamp]
  cases hcreated : history.stamp? with
  | none => exact Timestamp.le_refl _
  | some created =>
    rw [hchange]
    exact hle created hcreated

/-- In an unbroken run at times that are in order and can be written: a lookup that finds the
    record reports its stamp as the time of creation, or the time of change as long as it has
    none, and in either case no time after the time of change; and all lookups that find a
    record with a stamp report the same time. -/
theorem creation_time_fixed (t : Tracker) (workflowId executionId : String) {history : History}
    {looks : List (History × Checked StatusLookup)} {s : Shared}
    (h : t.Unbroken workflowId executionId history looks s)
    (hordered : history.Pairwise fun later earlier => earlier.2 ≤ later.2)
    (hwritable : ∀ x ∈ history, x.2.Writable) :
    (∀ found r, (found, .ok (.found r)) ∈ looks →
      r.createdAt = (History.stamp? found).getD r.updatedAt ∧ r.createdAt ≤ r.updatedAt) ∧
    ∀ found₁ r₁ found₂ r₂, (found₁, .ok (.found r₁)) ∈ looks →
      (found₂, .ok (.found r₂)) ∈ looks → (History.stamp? found₁).isSome →
      (History.stamp? found₂).isSome → r₁.createdAt = r₂.createdAt := by
  have hreported : ∀ found r, (found, .ok (.found r)) ∈ looks → found <:+ history ∧
      r.createdAt = (History.stamp? found).getD r.updatedAt ∧ r.createdAt ≤ r.updatedAt := by
    intro found r hlook
    obtain ⟨hsuffix, now, hreading⟩ := h.reading _ hlook
    replace hreading := (Except.ok.inj hreading).symm
    have hne : found ≠ [] := by
      rintro rfl
      simp [reading, History.fields] at hreading
    have hdated := dated_fields (Key.execution workflowId executionId)
      (fun x hx => h.writes x (hsuffix.subset hx)) (hordered.sublist hsuffix.sublist) hne
    exact ⟨hsuffix, hdated.reported (fun x hx => hwritable x (hsuffix.subset hx)) hreading⟩
  refine ⟨fun found r hlook => (hreported found r hlook).2,
    fun found₁ r₁ found₂ r₂ hlook₁ hlook₂ hstamp₁ hstamp₂ => ?_⟩
  obtain ⟨hsuffix₁, hcreated₁, -⟩ := hreported found₁ r₁ hlook₁
  obtain ⟨hsuffix₂, hcreated₂, -⟩ := hreported found₂ r₂ hlook₂
  obtain ⟨created₁, hstamp₁⟩ := Option.isSome_iff_exists.mp hstamp₁
  obtain ⟨created₂, hstamp₂⟩ := Option.isSome_iff_exists.mp hstamp₂
  -- Both stamps are that of the whole run.
  have hsame : some created₁ = some created₂ :=
    (History.stamp?_of_suffix hsuffix₁ hstamp₁).symm.trans
      (History.stamp?_of_suffix hsuffix₂ hstamp₂)
  rw [hcreated₁, hcreated₂, hstamp₁, hstamp₂, Option.some.inj hsame]
  rfl

/-- The time of creation that a lookup has reported. -/
def created? : Checked StatusLookup → Option Timestamp
  | .ok (.found r) => some r.createdAt
  | _ => none

theorem exists_of_created? {out : Checked StatusLookup} {created : Timestamp}
    (h : created? out = some created) : ∃ r, out = .ok (.found r) ∧ r.createdAt = created := by
  match out with
  | .ok (.found r) => exact ⟨r, rfl, Option.some.inj h⟩

/-- The first file that is counted starts a record, which is completed a second later; after
    either there is a lookup. -/
def countedFirst : List Move :=
  [.operate (.increment .completed) (.ofMillis 0), .look (.ofMillis 500),
    .operate (.update (.canonical .completed)) (.ofMillis 1000), .look (.ofMillis 1500)]

/-- Both lookups report the time of the first file. -/
theorem creation_time_fixed_counted_first :
    ∃ (history found₁ found₂ : History) (looks : _) (s : Shared) (r₁ r₂ : StatusRecord),
      withDefaultTtls.Unbroken "w" "e" history looks s ∧
      (found₁, .ok (.found r₁)) ∈ looks ∧ (found₂, .ok (.found r₂)) ∈ looks ∧
      found₁ ≠ found₂ ∧ r₁.createdAt = .ofMillis 0 ∧ r₁.createdAt = r₂.createdAt ∧
      r₁.createdAt ≤ r₁.updatedAt := by
  have hrun := Account.sound_play countedFirst (Account.sound_empty "w" "e") (by decide +kernel)
  have hcreated : ∀ look ∈ (Account.play "w" "e" {} countedFirst).looks,
      created? look.2 = some (.ofMillis 0) := by decide +kernel
  have hlook₁ : ∃ out, ([(.update (.canonical .completed), .ofMillis 1000),
      (.increment .completed, .ofMillis 0)], out) ∈
      (Account.play "w" "e" {} countedFirst).looks := ⟨_, List.mem_cons_self⟩
  have hlook₂ : ∃ out, ([(.increment .completed, .ofMillis 0)], out) ∈
      (Account.play "w" "e" {} countedFirst).looks := ⟨_, List.mem_cons_of_mem _ List.mem_cons_self⟩
  obtain ⟨out₁, hlook₁⟩ := hlook₁
  obtain ⟨out₂, hlook₂⟩ := hlook₂
  obtain ⟨r₁, rfl, hfirst⟩ := exists_of_created? (hcreated _ hlook₁)
  obtain ⟨r₂, rfl, -⟩ := exists_of_created? (hcreated _ hlook₂)
  obtain ⟨hreported, hsame⟩ := creation_time_fixed withDefaultTtls "w" "e" hrun (by decide)
    (by decide +kernel)
  exact ⟨_, _, _, _, _, r₁, r₂, hrun, hlook₁, hlook₂, by decide, hfirst,
    hsame _ _ _ _ hlook₁ hlook₂ rfl rfl, (hreported _ _ hlook₁).2⟩

/-- A record that is made by an update, updated again, and then started; after each there is
    a lookup. -/
def updatedFirst : List Move :=
  [.operate (.update (.canonical .executing)) (.ofMillis 0), .look (.ofMillis 500),
    .operate (.update (.canonical .completed)) (.ofMillis 1000), .look (.ofMillis 1500),
    .operate (.create 3) (.ofMillis 2000), .look (.ofMillis 2500)]

/-- Three lookups report three times of creation. -/
theorem creation_time_fixed_fails :
    ∃ (history : History) (looks : _) (s : Shared),
      withDefaultTtls.Unbroken "w" "e" history looks s ∧
      (history.Pairwise fun later earlier => earlier.2 ≤ later.2) ∧
      (∀ x ∈ history, x.2.Writable ∧ x.1.Fits) ∧
      looks.map (fun look => created? look.2) =
        [some (.ofMillis 2000), some (.ofMillis 1000), some (.ofMillis 0)] := by
  have hrun := Account.sound_play updatedFirst (Account.sound_empty "w" "e") (by decide +kernel)
  exact ⟨_, _, _, hrun, by decide, by decide +kernel, by decide +kernel⟩

end Tracker

end ExecutionControl
