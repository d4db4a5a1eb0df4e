import ExecutionControl.Proofs.Tracking.Unbroken

/-! # The number of files is read back

    In an unbroken run every lookup after an operation that starts a record gives back the
    number of files that this operation has set, whatever updates and counts come in between;
    but only if the number is one of 63 bits. It is written as a number without a sign and
    read as one with a sign, so that above that no part of the record can be read any more
    (`total_read_back`).
-/

namespace ExecutionControl

open StatusRecord

/-! ### Numbers that are too large -/

namespace Text

variable {limit n m value : Nat} {excess : NumeralError} {cs : List Char}

/-- What is read from digits stays within the limit. -/
theorem le_of_readDigits (hvalue : value ≤ limit) (h : readDigits limit excess value cs = .ok m) :
    m ≤ limit := by
  induction cs generalizing value with
  | nil =>
    cases h
    exact hvalue
  | cons c cs ih =>
    simp only [readDigits] at h
    split at h
    · cases h
    · split at h
      · exact ih ‹_› h
      · cases h

/-- A number beyond the limit is not read. -/
theorem readInt_toString_of_lt (h : limit < n) : ∃ e, readInt limit (toString n) = .error e := by
  rw [readInt_toString_eq]
  cases hread : readDigits limit .tooLarge 0 (toString n).toList with
  | error e => exact ⟨e, rfl⟩
  | ok m =>
    obtain rfl : m = n :=
      (eq_of_readDigits (fun c hc => isDigit_of_mem_toString hc) hread).trans
        (ofDigitChars_toString n)
    exact absurd (le_of_readDigits (Nat.zero_le _) hread) (Nat.not_le_of_lt h)

end Text

/-! ### What an edit leaves of a record -/

namespace TrackerOperation

variable {op : TrackerOperation} {key field value : String} {time : Timestamp} {f : Fields}

theorem legible_insertIfNew (h : Legible f) (hfits : StatusRecord.Fits field value) :
    Legible (f.insertIfNew field value) := by
  cases hcontains : f.contains field with
  | true =>
    rw [insertIfNew_of_contains hcontains]
    exact h
  | false =>
    rw [insertIfNew_of_not_contains hcontains]
    exact h.insert hfits

theorem legible_seed (h : Legible f) : Legible (seed time f) := by
  unfold seed
  split
  · exact h
  · exact legible_insertIfNew (legible_insertIfNew h (fits_status .pending))
      (fits_other (by decide) (by decide) (by decide) _)

theorem legible_countUp {c : Counter} (h : Legible f) :
    Legible (countUp key c.field time f) := by
  obtain ⟨n, hshows, hn⟩ := h.shows c.field_cases
  unfold countUp
  rw [hshows.counter hn]
  split
  · rename_i m hm
    cases hm
    split
    · rename_i hfits
      exact (h.insert (fits_counter c.field_cases (CoordStore.succ_le_maxInt64 hfits))).insert
        (fits_other (by decide) (by decide) (by decide) _)
    · exact h
  · exact h

/-- The fields that are read back can be read after every edit. -/
theorem legible_edit (h : Legible f) : Legible (op.edit key time f) := by
  have hupdated : ∀ text, StatusRecord.Fits updatedField text :=
    fits_other (by decide) (by decide) (by decide)
  have hzero : "0" = toString 0 := rfl
  cases op with
  | create totalFiles =>
    refine Legible.insert (Legible.insert ?_ ?_) (hupdated _)
    · refine legible_insertIfNew (legible_insertIfNew (legible_insertIfNew
        (legible_insertIfNew h (fits_status .pending)) ?_) ?_)
        (fits_other (by decide) (by decide) (by decide) _)
      · rw [hzero]
        exact fits_counter (.inl rfl) (Nat.zero_le _)
      · rw [hzero]
        exact fits_counter (.inr rfl) (Nat.zero_le _)
    · exact fits_other (by decide) (by decide) (by decide) _
  | update value =>
    simp only [edit]
    cases value.resolve with
    | ok status => exact (h.insert (fits_status status)).insert (hupdated _)
    | error e => exact h
  | increment c => exact legible_countUp (legible_seed h)
  | delete => exact legible_empty

/-- Only an operation that starts a record sets the number of files. -/
theorem getElem?_total_edit (key : String) (time : Timestamp) (f : Fields) (hop : op.Writes)
    (hcreate : ∀ n, op ≠ .create n) :
    (op.edit key time f)[totalField]? = f[totalField]? := by
  cases op with
  | create n => exact absurd rfl (hcreate n)
  | update value =>
    obtain ⟨status, hvalue⟩ := hop
    simp only [edit, hvalue]
    rw [getElem?_insert_of_ne (by decide), getElem?_insert_of_ne (by decide)]
  | increment c =>
    rw [edit, getElem?_countUp (by cases c <;> decide) (by decide),
      getElem?_seed (by decide) (by decide)]
  | delete => exact hop.elim

theorem getElem?_total_create (key : String) (n : Nat) (time : Timestamp) (f : Fields) :
    ((TrackerOperation.create n).edit key time f)[totalField]? = some (toString n) := by
  rw [edit, getElem?_insert_of_ne (by decide), Std.ExtTreeMap.getElem?_insert_self]

end TrackerOperation

/-! ### What a history leaves of a record -/

namespace Tracker

namespace History

variable {history later earlier : History} {key : String} {n : Nat} {time : Timestamp}

theorem legible_fields (history : History) (key : String) : Legible (history.fields key) := by
  induction history with
  | nil => exact legible_empty
  | cons x earlier ih => exact TrackerOperation.legible_edit ih

theorem exists_status (key : String) (hwrites : ∀ x ∈ history, x.1.Writes)
    (hne : history ≠ []) :
    ∃ status : ExecutionStatus, (history.fields key)[statusField]? = some status.name := by
  obtain ⟨x, earlier, rfl⟩ := List.exists_cons_of_ne_nil hne
  have hcontains : (fields key (x :: earlier)).contains statusField :=
    TrackerOperation.contains_status_edit key _ _ (hwrites x List.mem_cons_self)
  rw [Std.ExtTreeMap.contains_eq_isSome_getElem?] at hcontains
  obtain ⟨raw, hraw⟩ := Option.isSome_iff_exists.mp hcontains
  obtain ⟨status, rfl⟩ := (legible_fields _ key _ _ hraw).2 rfl
  exact ⟨status, hraw⟩

/-- The number of files is the one that was set last. -/
theorem total_fields (key : String) (hwrites : ∀ x ∈ later, x.1.Writes)
    (hlater : ∀ x ∈ later, ∀ m, x.1 ≠ .create m) :
    (fields key (later ++ (.create n, time) :: earlier))[totalField]? = some (toString n) := by
  induction later with
  | nil => exact TrackerOperation.getElem?_total_create key n time _
  | cons x later ih =>
    have hsame := TrackerOperation.getElem?_total_edit key x.2
      (fields key (later ++ (.create n, time) :: earlier)) (hwrites x List.mem_cons_self)
      (hlater x List.mem_cons_self)
    exact hsame.trans (ih (fun y hy => hwrites y (List.mem_cons_of_mem _ hy))
      fun y hy => hlater y (List.mem_cons_of_mem _ hy))

end History

/-! ### Lookups -/

variable {workflowId executionId : String} {f : Fields} {status : ExecutionStatus} {n : Nat}

theorem isEmpty_of_field {field value : String} (h : f[field]? = some value) :
    f.isEmpty = false := by
  rw [Std.ExtTreeMap.isEmpty_eq_false_iff]
  rintro rfl
  simp at h

/-- Where everything else can be read, so can a number of files of 63 bits. -/
theorem reading_of_total_le (now : Timestamp) (hlegible : Legible f)
    (hstatus : f[statusField]? = some status.name) (htotal : f[totalField]? = some (toString n))
    (hn : n ≤ Text.maxInt64) :
    ∃ r, reading workflowId executionId f now = .found r ∧ r.totalFiles = n := by
  obtain ⟨completed, hcompleted, hcompleted_le⟩ := hlegible.shows (.inl rfl)
  obtain ⟨failed, hfailed, hfailed_le⟩ := hlegible.shows (.inr rfl)
  let x : Tracked := ⟨status, fun c => if c = .completed then completed else failed, n⟩
  have hnumbers : x.Numbers f := by
    refine ⟨fun c => ?_, .inr htotal, fun c => ?_, hn⟩
    · cases c with
      | completed => exact hcompleted
      | failed => exact hfailed
    · cases c with
      | completed => exact hcompleted_le
      | failed => exact hfailed_le
  obtain ⟨r, hr, -, -, -, hsays⟩ :=
    ofFields_of_numbers workflowId executionId now hstatus hnumbers
  refine ⟨r, ?_, hsays⟩
  simp only [reading, isEmpty_of_field hstatus, Bool.false_eq_true, if_false, hr]

/-- A larger number of files is not read, and neither is the rest of the record. -/
theorem reading_of_lt_total (now : Timestamp) (htotal : f[totalField]? = some (toString n))
    (hn : Text.maxInt64 < n) : reading workflowId executionId f now = .unknown := by
  obtain ⟨e, hread⟩ := Text.readInt_toString_of_lt hn
  have hcounter : ∃ e', readCounter f (Key.execution workflowId executionId) totalField =
      .error e' := by
    simp only [readCounter, htotal, hread]
    exact ⟨_, rfl⟩
  obtain ⟨e', hcounter⟩ := hcounter
  have hrecord : ∃ e, ofFields workflowId executionId f now = .error e := by
    simp only [ofFields, hcounter, bind, Except.bind]
    split
    · exact ⟨_, rfl⟩
    · split
      · exact ⟨_, rfl⟩
      · split <;> exact ⟨_, rfl⟩
  obtain ⟨e, hrecord⟩ := hrecord
  simp only [reading, isEmpty_of_field htotal, Bool.false_eq_true, if_false, hrecord]

/-- Whatever updates and counts follow an operation that starts a record, in an unbroken run: a
    lookup finds the record with the number of files that was set, if that is a number of 63
    bits, and cannot tell anything of the execution if it is larger. -/
theorem total_read_back (t : Tracker) (workflowId executionId : String) {history : History}
    {looks : List (History × Checked StatusLookup)} {s : Shared}
    (h : t.Unbroken workflowId executionId history looks s) (later earlier : History)
    {totalFiles : Nat} {time : Timestamp} {out : Checked StatusLookup}
    (hlook : (later ++ (.create totalFiles, time) :: earlier, out) ∈ looks)
    (hlater : ∀ x ∈ later, ∀ n, x.1 ≠ .create n) :
    (totalFiles ≤ Text.maxInt64 → ∃ r, out = .ok (.found r) ∧ r.totalFiles = totalFiles) ∧
      (Text.maxInt64 < totalFiles → out = .ok .unknown) := by
  obtain ⟨hsuffix, now, hout⟩ := h.reading _ hlook
  have hwrites : ∀ x ∈ later ++ (.create totalFiles, time) :: earlier, x.1.Writes :=
    fun x hx => h.writes x (hsuffix.subset hx)
  have htotal : (History.fields (Key.execution workflowId executionId)
      (later ++ (.create totalFiles, time) :: earlier))[totalField]? = some (toString totalFiles) :=
    History.total_fields _ (fun x hx => hwrites x (List.mem_append_left _ hx)) hlater
  constructor
  · intro hn
    obtain ⟨status, hstatus⟩ := History.exists_status (Key.execution workflowId executionId)
      hwrites (by simp)
    obtain ⟨r, hr, hr_total⟩ := reading_of_total_le now (History.legible_fields _ _) hstatus
      htotal hn
    exact ⟨r, hout.trans (congrArg Except.ok hr), hr_total⟩
  · intro hn
    exact hout.trans (congrArg Except.ok (reading_of_lt_total now htotal hn))

/-- A record of three files that is started, counted up once and looked up. -/
def threeFiles : List Move :=
  [.operate (.create 3) default, .operate (.increment .completed) default, .look default]

/-- A lookup finds the number of files after one of them is counted. -/
theorem total_read_back_counted :
    ∃ (history : History) (looks : _) (s : Shared) (out : Checked StatusLookup) (r : StatusRecord),
      withDefaultTtls.Unbroken "w" "e" history looks s ∧ (history, out) ∈ looks ∧
      out = .ok (.found r) ∧ r.totalFiles = 3 := by
  have hrun := Account.sound_play threeFiles (Account.sound_empty "w" "e") (by decide +kernel)
  obtain ⟨hle, -⟩ := total_read_back withDefaultTtls "w" "e" hrun
    [(.increment .completed, default)] [] List.mem_cons_self (by simp)
  obtain ⟨r, hr, htotal⟩ := hle (by decide)
  exact ⟨_, _, _, _, r, hrun, List.mem_cons_self, hr, htotal⟩

theorem eq_unknown_of_isUnknown {out : Checked StatusLookup} (h : isUnknown out) :
    out = .ok .unknown := by
  match out with
  | .ok .unknown => rfl

/-- A record of 2^63 files that is started and looked up. -/
def tooManyFiles : List Move := [.operate (.create (2 ^ 63)) default, .look default]

/-- A number of files that is one of 64 bits, but not of 63, cannot be read back. -/
theorem total_read_back_fails :
    2 ^ 63 ≤ Text.maxWord64 ∧ ∃ (looks : _) (s : Shared),
      withDefaultTtls.Unbroken "w" "e" [(.create (2 ^ 63), default)] looks s ∧
      ([(.create (2 ^ 63), default)], .ok .unknown) ∈ looks := by
  have hrun := Account.sound_play tooManyFiles (Account.sound_empty "w" "e") (by decide +kernel)
  have hunknown : ∀ look ∈ (Account.play "w" "e" {} tooManyFiles).looks, isUnknown look.2 := by
    decide +kernel
  have hlook : ∃ out, ([(.create (2 ^ 63), default)], out) ∈
      (Account.play "w" "e" {} tooManyFiles).looks := ⟨_, List.mem_cons_self⟩
  obtain ⟨out, hlook⟩ := hlook
  obtain rfl := eq_unknown_of_isUnknown (hunknown _ hlook)
  exact ⟨by decide, _, _, hrun, hlook⟩

end Tracker

end ExecutionControl
