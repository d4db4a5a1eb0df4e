import ExecutionControl.Proofs.FileChanges
import ExecutionControl.Proofs.Timestamps

/-! # One record for every file

    The unique index of the file records is a second map beside the records, under other
    keys. `Indexed` says that the two agree: what the index gives for a file is the identity
    of the one record of that file. A registration keeps this, since it writes both maps or
    none, and so does a transition, since what identifies the file is not changed by it. It
    follows that a file is registered once, and that a list of the files of an execution has
    every record once (`one_record_per_file`).
-/

namespace ExecutionControl

open Std (ExtTreeMap)

/-! ### Order -/

namespace FileRecord

/-- One record is older than another, or of the same age and has the smaller identity. -/
def Before (a b : FileRecord) : Prop :=
  a.createdAt ≤ b.createdAt ∧ a.createdAt ≠ b.createdAt ∨
    a.createdAt = b.createdAt ∧ a.id < b.id

variable {r r' : FileRecord} {target : ExecutionStatus} {error : Option String}
  {executionTime : Option Float} {now : Timestamp} {moved : Bool}

/-- A transition changes neither the identity of a record nor that of its file. -/
theorem identity_transition (h : r.transition target error executionTime now = .ok (moved, r')) :
    r'.id = r.id ∧ r'.key = r.key := by
  unfold transition at h
  split at h
  · split at h <;> cases h <;> exact ⟨rfl, rfl⟩
  · cases h

end FileRecord

namespace FileTable

/-- The tables that calls reach from the empty one. The identity that is drawn for a call is
    one that no record has. -/
inductive Runs : FileTable → Prop
  | start : Runs {}
  | call {t : FileTable} (h : Runs t) (call : FileCall) {id : String} (now : Timestamp)
      (hid : t.get id = none) : Runs (t.perform id now call).2

/-- Every record lies under its own identity, and the index gives for a file the identity of
    the record that has the file. -/
structure Indexed (t : FileTable) : Prop where
  id_eq : ∀ {id r}, t.get id = some r → r.id = id
  index_iff : ∀ {key id}, t.index[key]? = some id ↔ ∃ r, t.get id = some r ∧ r.key = key

variable {t t' : FileTable} {id id' executionId : String} {now : Timestamp} {file : NewFile}
  {a b c r r' : FileRecord}

/-! ### Registrations -/

theorem Indexed.index_eq_none (h : t.Indexed) {key : FileKey} :
    t.index[key]? = none ↔ ∀ id r, t.get id = some r → r.key ≠ key := by
  constructor
  · intro hnone id r hr hkey
    have hsome := h.index_iff.mpr ⟨r, hr, hkey⟩
    rw [hnone] at hsome
    cases hsome
  · intro hnot
    cases hindex : t.index[key]? with
    | none => rfl
    | some id =>
      obtain ⟨r, hr, hkey⟩ := h.index_iff.mp hindex
      exact absurd hkey (hnot id r hr)

/-- A file that has a record is found, and nothing is changed. -/
theorem Indexed.createOrGet_again (h : t.Indexed) (hr : t.get id' = some r)
    (hkey : r.key = file.key) : t.createOrGet file id now = (.ok (r, false), t) := by
  have hindex : t.index[file.key]? = some id' := h.index_iff.mpr ⟨r, hr, hkey⟩
  have hrecord : t.records[id']? = some r := hr
  simp only [createOrGet, hindex, hrecord]

/-- A file that has no record gets one. -/
theorem Indexed.createOrGet_new (h : t.Indexed)
    (hnew : ∀ id r, t.get id = some r → r.key ≠ file.key) :
    t.createOrGet file id now = (.ok (.ofNew id file now, true),
      ⟨t.records.insert id (.ofNew id file now), t.index.insert file.key id⟩) := by
  simp only [createOrGet, h.index_eq_none.mpr hnew]

/-- A record that is written under a new identity, with its file in the index. -/
theorem Indexed.insert (h : t.Indexed) (hid : t.get id = none) (hrid : r.id = id)
    (hnew : ∀ id r', t.get id = some r' → r'.key ≠ r.key) :
    Indexed ⟨t.records.insert id r, t.index.insert r.key id⟩ where
  id_eq {id' r'} hr' := by
    simp only [get, ExtTreeMap.getElem?_insert, Std.LawfulEqOrd.compare_eq_iff_eq] at hr'
    split at hr'
    · rename_i heq
      cases hr'
      exact hrid.trans heq
    · exact h.id_eq hr'
  index_iff {key id'} := by
    simp only [get, ExtTreeMap.getElem?_insert, Std.LawfulEqCmp.compare_eq_iff_eq]
    by_cases hkey : r.key = key
    · -- Nobody else has the file.
      subst hkey
      rw [if_pos rfl]
      constructor
      · rintro hsame
        cases hsame
        exact ⟨r, by rw [if_pos rfl], rfl⟩
      · rintro ⟨r', hr', hsame⟩
        split at hr'
        · rename_i heq
          rw [heq]
        · exact absurd hsame (hnew id' r' hr')
    · rw [if_neg hkey, h.index_iff]
      by_cases heq : id = id'
      · subst heq
        simp [hid, hkey]
      · simp [heq, get]

theorem Indexed.createOrGet (h : t.Indexed) (hid : t.get id = none) :
    Indexed (t.createOrGet file id now).2 := by
  by_cases hold : ∃ id' r, t.get id' = some r ∧ r.key = file.key
  · obtain ⟨id', r, hr, hkey⟩ := hold
    rw [h.createOrGet_again hr hkey]
    exact h
  · have hnew : ∀ id r, t.get id = some r → r.key ≠ file.key :=
      fun id r hr hkey => hold ⟨id, r, hr, hkey⟩
    rw [h.createOrGet_new hnew]
    exact h.insert (r := .ofNew id file now) hid rfl hnew

/-! ### Transitions -/

/-- A record that is replaced by one of the same identity and of the same file. -/
theorem Indexed.replace (h : t.Indexed) (hr : t.get id = some r) (hrid : r'.id = r.id)
    (hkey : r'.key = r.key) : Indexed { t with records := t.records.insert id r' } where
  id_eq {id' r''} hr'' := by
    simp only [get, ExtTreeMap.getElem?_insert, Std.LawfulEqOrd.compare_eq_iff_eq] at hr''
    split at hr''
    · rename_i heq
      cases hr''
      exact (hrid.trans (h.id_eq hr)).trans heq
    · exact h.id_eq hr''
  index_iff {key id'} := by
    rw [h.index_iff]
    simp only [get, ExtTreeMap.getElem?_insert, Std.LawfulEqOrd.compare_eq_iff_eq]
    by_cases heq : id = id'
    · subst heq
      have hrecord : t.records[id]? = some r := hr
      simp [hrecord, hkey]
    · simp [heq]

theorem Indexed.transition {target : ExecutionStatus} {error : Option String}
    {executionTime : Option Float} (h : t.Indexed) :
    Indexed (t.transition id target error executionTime now).2 := by
  obtain ⟨reply, t', hcall⟩ : ∃ reply t', t.transition id target error executionTime now =
    (reply, t') := ⟨_, _, rfl⟩
  rw [hcall]
  rcases transition_cases hcall with ⟨-, rfl⟩ | ⟨r, r', moved, hr, -, rfl, hmove⟩
  · exact h
  · obtain ⟨hrid, hkey⟩ := FileRecord.identity_transition hmove
    exact h.replace hr hrid hkey

/-! ### Runs -/

theorem Indexed.start : Indexed {} where
  id_eq {id r} hr := by
    simp [get] at hr
  index_iff {key id} := by
    simp [get]

theorem Indexed.perform (h : t.Indexed) (hid : t.get id = none) (call : FileCall) :
    Indexed (t.perform id now call).2 := by
  cases call with
  | createOrGet file => exact h.createOrGet hid
  | transition id target error executionTime => exact h.transition
  | _ => exact h

theorem Runs.indexed (h : t.Runs) : t.Indexed := by
  induction h with
  | start => exact .start
  | call _ call now hid ih => exact ih.perform hid call

/-! ### Lists -/

theorem inListOrder_iff :
    inListOrder a b ↔ a.Before b ∨ a.createdAt = b.createdAt ∧ a.id = b.id := by
  unfold inListOrder FileRecord.Before
  split
  · rename_i hage
    simp [hage, Std.le_iff_lt_or_eq]
  · rename_i hage
    simp [hage]

theorem inListOrder_total (a b : FileRecord) : (inListOrder a b || inListOrder b a) = true := by
  unfold inListOrder
  by_cases hage : a.createdAt = b.createdAt
  · simpa [hage] using String.le_total a.id b.id
  · simpa [hage, Ne.symm hage] using Timestamp.le_total a.createdAt b.createdAt

theorem inListOrder_trans (a b c : FileRecord) (h : inListOrder a b = true)
    (h' : inListOrder b c = true) : inListOrder a c = true := by
  unfold inListOrder at *
  split at h
  · rename_i hab
    rw [hab]
    split at h'
    · rename_i hbc
      simp only [hbc, if_true, decide_eq_true_eq] at *
      exact String.le_trans h h'
    · rename_i hbc
      simpa [hbc] using h'
  · rename_i hab
    have hle : a.createdAt ≤ b.createdAt := of_decide_eq_true h
    split at h'
    · rename_i hbc
      rw [← hbc]
      simpa [hab] using h
    · rename_i hbc
      have hle' : b.createdAt ≤ c.createdAt := of_decide_eq_true h'
      -- The first is older than the last: otherwise all three would be of one age.
      have hac : a.createdAt ≠ c.createdAt := by
        intro hac
        rw [hac] at hle hab
        exact hab (Timestamp.le_antisymm hle hle')
      simpa [hac] using Timestamp.le_trans hle hle'

theorem mem_ofExecution (h : t.Indexed) :
    r ∈ t.ofExecution executionId ↔ t.get r.id = some r ∧ r.executionId = executionId := by
  unfold ofExecution
  rw [List.mem_filter, values_eq_map_toList, List.mem_map, beq_iff_eq]
  refine and_congr_left fun _ => ⟨?_, fun hr => ⟨(r.id, r), ?_, rfl⟩⟩
  · rintro ⟨⟨id, r'⟩, hmem, rfl⟩
    have hr' : t.get id = some r' := ExtTreeMap.mem_toList_iff_getElem?_eq_some.mp hmem
    rw [h.id_eq hr']
    exact hr'
  · exact ExtTreeMap.mem_toList_iff_getElem?_eq_some.mpr hr

/-- No two records have one identity. -/
theorem pairwise_ofExecution (h : t.Indexed) :
    (t.ofExecution executionId).Pairwise fun a b => a.id ≠ b.id := by
  have hids : t.records.toList.Pairwise fun p q => p.2.id ≠ q.2.id := by
    refine t.records.distinct_keys_toList.imp_of_mem ?_
    rintro ⟨id, a⟩ ⟨id', b⟩ ha hb hne
    rw [h.id_eq (ExtTreeMap.mem_toList_iff_getElem?_eq_some.mp ha),
      h.id_eq (ExtTreeMap.mem_toList_iff_getElem?_eq_some.mp hb)]
    rintro rfl
    exact hne Std.ReflCmp.compare_self
  have hvalues : t.records.values.Pairwise fun a b => a.id ≠ b.id := by
    rw [values_eq_map_toList]
    exact List.pairwise_map.mpr hids
  exact hvalues.filter _

/-- A list has its records in strict order. -/
theorem pairwise_list (h : t.Indexed) : (t.list executionId).Pairwise FileRecord.Before := by
  have hsorted := List.pairwise_mergeSort inListOrder_trans inListOrder_total
    (t.ofExecution executionId)
  have hids : (t.list executionId).Pairwise fun a b => a.id ≠ b.id :=
    (List.mergeSort_perm _ _).pairwise_iff (fun hne => hne.symm) |>.mpr (pairwise_ofExecution h)
  refine (hsorted.and hids).imp fun {a b} hab => ?_
  rcases inListOrder_iff.mp hab.1 with hbefore | ⟨-, hid⟩
  · exact hbefore
  · exact absurd hid hab.2

theorem countByStatus_eq_countP_list (t : FileTable) (executionId : String)
    (status : ExecutionStatus) : t.countByStatus executionId status =
      (t.list executionId).countP fun r => r.status == status :=
  ((List.mergeSort_perm _ _).countP_eq _).symm

/-! ### One record for every file -/

/-- Whatever files are registered and moved, the index and the records correspond one to one,
    so that no two records have the same file. A registration always succeeds: with a new
    record if no record has the file, and otherwise with the record that has it, as it stands
    and without a change, whatever else it says of the file. A list has every record of an
    execution once, by age and then by identity, and the counts are those of the list. -/
theorem one_record_per_file (h : t.Runs) :
    (∀ key id, t.index[key]? = some id ↔ ∃ r, t.get id = some r ∧ r.id = id ∧ r.key = key) ∧
    (∀ id r, t.get id = some r → r.id = id ∧ t.index[r.key]? = some id) ∧
    (∀ id id' r r', t.get id = some r → t.get id' = some r' → r.key = r'.key →
      id = id' ∧ r = r') ∧
    (∀ (file : NewFile) (id : String) (now : Timestamp),
      ∃ r created t', t.createOrGet file id now = (.ok (r, created), t') ∧ r.key = file.key ∧
        (created = true ↔ ∀ id' r', t.get id' = some r' → r'.key ≠ file.key) ∧
        (created = true → r = .ofNew id file now ∧
          ∀ id', t'.get id' = if id' = id then some r else t.get id') ∧
        (created = false → t.get r.id = some r ∧ t' = t)) ∧
    ∀ executionId,
      (∀ r, r ∈ t.list executionId ↔ t.get r.id = some r ∧ r.executionId = executionId) ∧
      (t.list executionId).Nodup ∧
      (t.list executionId).Pairwise FileRecord.Before ∧
      ∀ status, t.countByStatus executionId status =
        (t.list executionId).countP fun r => r.status == status := by
  have hindexed := h.indexed
  refine ⟨fun key id => ?_, fun id r hr => ⟨hindexed.id_eq hr, hindexed.index_iff.mpr ⟨r, hr, rfl⟩⟩,
    fun id id' r r' hr hr' hkey => ?_, fun file id now => ?_, fun executionId => ?_⟩
  · rw [hindexed.index_iff]
    exact exists_congr fun r => and_congr_right fun hr => by simp [hindexed.id_eq hr]
  · have hindex := hindexed.index_iff.mpr ⟨r, hr, rfl⟩
    rw [hkey, hindexed.index_iff.mpr ⟨r', hr', rfl⟩] at hindex
    cases hindex
    exact ⟨rfl, Option.some.inj (hr.symm.trans hr')⟩
  -- The registration finds the record of the file, or makes it.
  · by_cases hold : ∃ id' r, t.get id' = some r ∧ r.key = file.key
    · obtain ⟨id', r, hr, hkey⟩ := hold
      refine ⟨r, false, t, hindexed.createOrGet_again hr hkey, hkey, ?_, nofun, fun _ => ⟨?_, rfl⟩⟩
      · exact ⟨nofun, fun hnew => absurd hkey (hnew id' r hr)⟩
      · rw [hindexed.id_eq hr]
        exact hr
    · have hnew : ∀ id r, t.get id = some r → r.key ≠ file.key :=
        fun id r hr hkey => hold ⟨id, r, hr, hkey⟩
      refine ⟨_, true, _, hindexed.createOrGet_new hnew, rfl, ⟨fun _ => hnew, fun _ => rfl⟩,
        fun _ => ⟨rfl, fun id' => ?_⟩, nofun⟩
      simp only [get, ExtTreeMap.getElem?_insert, Std.LawfulEqOrd.compare_eq_iff_eq,
        eq_comm (a := id')]
  · have hbefore : (t.list executionId).Pairwise FileRecord.Before := pairwise_list hindexed
    refine ⟨fun r => List.mem_mergeSort.trans (mem_ofExecution hindexed), ?_, hbefore,
      countByStatus_eq_countP_list t executionId⟩
    -- No record comes before itself.
    refine hbefore.imp ?_
    rintro a b hab rfl
    rcases hab with ⟨-, hne⟩ | ⟨-, hlt⟩
    · exact hne rfl
    · exact Std.lt_irrefl hlt

/-- The table after a file is registered under the identity `1` and executed. -/
def executing : FileTable :=
  ((({} : FileTable).perform "1" default (.createOrGet ⟨"e", "n", "p", "h", 0, none⟩)).2.perform
    "2" default (.transition "1" .executing none none)).2

theorem one_record_per_file_registered_again :
    ∃ t : FileTable, t.Runs ∧ ∃ r, t.get "1" = some r ∧ r.status = .executing ∧
      ∀ id now, t.createOrGet ⟨"e", "other", "p", "h", 7, some "text"⟩ id now =
        (.ok (r, false), t) := by
  have hruns : executing.Runs :=
    .call (.call .start (.createOrGet ⟨"e", "n", "p", "h", 0, none⟩) default (by decide +kernel))
      (.transition "1" .executing none none) default (by decide +kernel)
  obtain ⟨r, hr, hstatus, hkey⟩ : ∃ r, executing.get "1" = some r ∧ r.status = .executing ∧
      r.key = ⟨"e", "h", "p"⟩ := ⟨_, rfl, by decide +kernel, by decide +kernel⟩
  refine ⟨executing, hruns, r, hr, hstatus, fun id now => ?_⟩
  obtain ⟨-, -, hunique, hregister, -⟩ := one_record_per_file hruns
  obtain ⟨r', created, t', hcall, hkey', hcreated, -, hfound⟩ :=
    hregister ⟨"e", "other", "p", "h", 7, some "text"⟩ id now
  cases created with
  | true => exact absurd hkey (hcreated.mp rfl "1" r hr)
  | false =>
    obtain ⟨hr', rfl⟩ := hfound rfl
    rw [hcall, (hunique _ _ _ _ hr hr' (hkey.trans hkey'.symm)).2]

end FileTable

end ExecutionControl
