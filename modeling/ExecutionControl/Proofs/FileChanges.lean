import ExecutionControl.Proofs.Services

/-! # What calls do to the file records

    How many records of an execution are in a terminal status: a registration changes
    nothing of that, since a new record is pending, and a transition adds one if it moves a
    record there (`countByStatus_createOrGet`, `countByStatus_transition`). A record that has
    come to a terminal status does not leave it.
-/

namespace ExecutionControl

open Std (ExtTreeMap DTreeMap)

/-! ### The values of a map -/

theorem values_eq_map_toList {β : Type} (m : ExtTreeMap String β) :
    m.values = m.toList.map Prod.snd := by
  obtain ⟨⟨q⟩⟩ := m
  induction q using Quotient.ind with
  | _ m =>
    change m.inner.values = (DTreeMap.Internal.Impl.Const.toList m.inner).map Prod.snd
    rw [DTreeMap.Internal.Impl.values_eq_map_snd,
      DTreeMap.Internal.Impl.Const.toList_eq_toListModel_map, List.map_map]
    rfl

theorem nodup_toList {β : Type} (m : ExtTreeMap String β) : m.toList.Nodup := by
  have hkeys := m.distinct_keys_toList
  refine hkeys.imp ?_
  rintro a b hne rfl
  exact hne Std.ReflCmp.compare_self

/-- Up to their order, the values after an insertion are the new one and those under other
    keys. -/
theorem values_insert_perm {β : Type} (m : ExtTreeMap String β) (k : String) (v : β) :
    (m.insert k v).values.Perm (v :: (m.erase k).values) := by
  have hlists : (m.insert k v).toList.Perm ((k, v) :: (m.erase k).toList) := by
    have hnew : (k, v) ∉ (m.erase k).toList := by
      rw [ExtTreeMap.mem_toList_iff_getElem?_eq_some]
      simp
    refine (List.perm_ext_iff_of_nodup (nodup_toList _)
      (List.nodup_cons.mpr ⟨hnew, nodup_toList _⟩)).mpr ?_
    rintro ⟨k', v'⟩
    rw [List.mem_cons, ExtTreeMap.mem_toList_iff_getElem?_eq_some,
      ExtTreeMap.mem_toList_iff_getElem?_eq_some, ExtTreeMap.getElem?_insert,
      ExtTreeMap.getElem?_erase]
    by_cases hk : k = k'
    · subst hk
      simp [eq_comm]
    · simp [hk, Ne.symm hk]
  rw [values_eq_map_toList, values_eq_map_toList]
  exact hlists.map Prod.snd

/-- A map with a value under a key is the one in which that value is written there. -/
theorem insert_getElem? {β : Type} {m : ExtTreeMap String β} {k : String} {v : β}
    (h : m[k]? = some v) : m.insert k v = m := by
  refine ExtTreeMap.ext_getElem? fun k' => ?_
  rw [ExtTreeMap.getElem?_insert]
  by_cases hk : k = k'
  · subst hk
    simp [h]
  · simp [hk]

theorem erase_of_getElem?_eq_none {β : Type} {m : ExtTreeMap String β} {k : String}
    (h : m[k]? = none) : m.erase k = m := by
  refine ExtTreeMap.ext_getElem? fun k' => ?_
  rw [ExtTreeMap.getElem?_erase]
  by_cases hk : k = k'
  · subst hk
    simp [h]
  · simp [hk]

variable {β : Type} {m : ExtTreeMap String β} {k : String} {v old : β} (p : β → Bool)

theorem countP_values_insert_new (h : m[k]? = none) :
    (m.insert k v).values.countP p = m.values.countP p + if p v then 1 else 0 := by
  rw [(values_insert_perm m k v).countP_eq, List.countP_cons, erase_of_getElem?_eq_none h]

theorem countP_values_insert (h : m[k]? = some old) :
    (m.insert k v).values.countP p + (if p old then 1 else 0) =
      m.values.countP p + if p v then 1 else 0 := by
  -- Both maps have the same values under other keys.
  have hbefore := (values_insert_perm m k old).countP_eq p
  rw [insert_getElem? h, List.countP_cons] at hbefore
  rw [(values_insert_perm m k v).countP_eq, List.countP_cons, hbefore]
  omega

/-! ### Records -/

namespace FileRecord

variable {r r' : FileRecord} {target : ExecutionStatus} {error : Option String}
  {executionTime : Option Float} {now : Timestamp} {moved : Bool}

/-- A transition moves a record to its target, out of a status that is not terminal, or
    finds it there. -/
theorem transition_ok (h : r.transition target error executionTime now = .ok (moved, r')) :
    r'.executionId = r.executionId ∧
      (moved = false ∧ r' = r ∨
        moved = true ∧ r'.status = target ∧ r.status.isTerminal = false) := by
  unfold transition at h
  split at h
  · rename_i hmay
    split at h <;> cases h
    · exact ⟨rfl, .inl ⟨rfl, rfl⟩⟩
    · rename_i hne
      refine ⟨rfl, .inr ⟨rfl, rfl, ?_⟩⟩
      simp only [ExecutionStatus.canMoveTo, Bool.or_eq_true, Bool.and_eq_true, beq_iff_eq, hne,
        false_or, Bool.not_eq_true'] at hmay
      exact hmay.1
  · cases h

end FileRecord

namespace FileTable

variable {t t' : FileTable} {id executionId : String} {now : Timestamp}
  {status target : ExecutionStatus}

/-- Whether a record is one of an execution in a status. -/
def isIn (executionId : String) (status : ExecutionStatus) (r : FileRecord) : Bool :=
  r.executionId == executionId && r.status == status

theorem countByStatus_eq : t.countByStatus executionId status =
    t.records.values.countP (isIn executionId status) := by
  unfold countByStatus ofExecution
  rw [List.countP_filter]
  refine List.countP_congr fun r _ => ?_
  simp [isIn, and_comm]

/-- A registration gives a record to a file that has none, under the identity `id`. -/
theorem createOrGet_records (t : FileTable) (file : NewFile) (id : String) (now : Timestamp) :
    (t.createOrGet file id now).2.records = t.records ∨
      (t.createOrGet file id now).2.records = t.records.insert id (.ofNew id file now) := by
  unfold createOrGet
  split
  · split <;> exact .inl rfl
  · exact .inr rfl

/-- A registration leaves the number of records in a terminal status as it is. -/
theorem countByStatus_createOrGet {file : NewFile} (hid : t.records[id]? = none)
    (hstatus : status.isTerminal) :
    (t.createOrGet file id now).2.countByStatus executionId status =
      t.countByStatus executionId status := by
  simp only [countByStatus_eq]
  rcases createOrGet_records t file id now with hsame | hnew
  · rw [hsame]
  · have hpending : isIn executionId status (.ofNew id file now) = false := by
      cases status <;> simp_all [isIn, FileRecord.ofNew, ExecutionStatus.isTerminal]
    rw [hnew, countP_values_insert_new _ hid, hpending]
    rfl

/-- What a transition has done. -/
theorem transition_cases {error : Option String} {executionTime : Option Float}
    {reply : Except StoreError (FileRecord × Bool)}
    (h : t.transition id target error executionTime now = (reply, t')) :
    (∃ e, reply = .error e) ∧ t' = t ∨ ∃ r r' moved, t.records[id]? = some r ∧
      reply = .ok (r', moved) ∧ t' = { t with records := t.records.insert id r' } ∧
      r.transition target error executionTime now = .ok (moved, r') := by
  unfold transition at h
  split at h
  · cases h
    exact .inl ⟨⟨_, rfl⟩, rfl⟩
  · rename_i r hr
    split at h
    · cases h
      exact .inl ⟨⟨_, rfl⟩, rfl⟩
    · rename_i moved r' htransition
      cases h
      exact .inr ⟨r, r', moved, hr, rfl, rfl, htransition⟩

/-- A transition adds one to the number of records in a terminal status if it moves a record
    of the execution there. -/
theorem countByStatus_transition {error : Option String} {executionTime : Option Float}
    {r' : FileRecord} {moved : Bool} (executionId : String)
    (h : t.transition id target error executionTime now = (.ok (r', moved), t'))
    (hstatus : status.isTerminal) :
    (∃ r, t.records[id]? = some r ∧ r.executionId = r'.executionId) ∧
      t'.countByStatus executionId status = t.countByStatus executionId status +
        if moved ∧ r'.executionId = executionId ∧ target = status then 1 else 0 := by
  rcases transition_cases h with ⟨⟨_, herror⟩, -⟩ | ⟨r, r'', moved', hr, hreply, rfl, hmove⟩
  · cases herror
  · cases hreply
    obtain ⟨hexecution, hcases⟩ := FileRecord.transition_ok hmove
    refine ⟨⟨r, hr, hexecution.symm⟩, ?_⟩
    have hcount := countP_values_insert (v := r') (isIn executionId status) hr
    simp only [countByStatus_eq]
    rcases hcases with ⟨rfl, rfl⟩ | ⟨rfl, rfl, hopen⟩
    · simp only [Bool.false_eq_true, false_and, if_false]
      omega
    · -- The record was not in a terminal status before.
      have hbefore : isIn executionId status r = false := by
        cases hr : r.status == status with
        | false => simp [isIn, hr]
        | true =>
          rw [beq_iff_eq.mp hr, hstatus] at hopen
          cases hopen
      have hafter : isIn executionId status r' = true ↔
          r'.executionId = executionId ∧ r'.status = status := by
        simp [isIn]
      simp only [hbefore, Bool.false_eq_true, if_false, hafter, Nat.add_zero] at hcount
      simpa using hcount

end FileTable

/-! ### Requests -/

namespace Shared

variable {F : Faults} {s s' : Shared} {r : Request}

/-- What becomes of a call to the table of file records: it is carried out with an identity
    that nobody has drawn, or it fails. -/
theorem Serves.files {call : FileCall} {reply : Except StoreError call.Result}
    (h : s.Serves F (.files call) (.ok reply) s') :
    (∃ id now, id ∉ s.drawn ∧ s.files.perform id now call = (reply, s'.files) ∧
        s'.drawn = id :: s.drawn) ∨
      (∃ e, reply = .error e) ∧ s'.files = s.files ∧ s'.drawn = s.drawn := by
  obtain ⟨t, -, ⟨now, id, hid, hreply, rfl⟩ | ⟨⟨b, ⟨e, -, rfl⟩, hreply⟩, rfl⟩⟩ := h
  · cases hreply
    exact .inl ⟨id, now, hid, rfl, rfl⟩
  · cases hreply
    exact .inr ⟨⟨e, rfl⟩, rfl, rfl⟩

/-- Every record has an identity that was drawn. -/
def Drawn (s : Shared) : Prop := ∀ id r, s.files.records[id]? = some r → id ∈ s.drawn

theorem Drawn.serves {reply : r.Reply} (h : s.Drawn) (hs : s.Serves F r (.ok reply) s') :
    s'.Drawn := by
  intro id r' hr'
  -- Whatever was there before has an identity that stays drawn.
  have hbefore : ∀ r', s.files.records[id]? = some r' → id ∈ s'.drawn := fun r' hold =>
    hs.drawn_subset (h id r' hold)
  by_cases hr : ∃ call, r = .files call
  · obtain ⟨call, rfl⟩ := hr
    rcases hs.files with ⟨id', now, -, hp, hdrawn⟩ | ⟨-, hfiles, -⟩
    · cases call with
      | createOrGet file =>
        have hfiles : s'.files = (s.files.createOrGet file id' now).2 := (congrArg Prod.snd hp).symm
        rw [hfiles] at hr'
        rcases FileTable.createOrGet_records s.files file id' now with hsame | hnew
        · exact hbefore r' (hsame ▸ hr')
        · rw [hnew, ExtTreeMap.getElem?_insert] at hr'
          split at hr'
          · rename_i heq
            rw [hdrawn, ← Std.LawfulEqOrd.eq_of_compare heq]
            exact List.mem_cons_self
          · exact hbefore r' hr'
      | transition id'' target error executionTime =>
        rcases FileTable.transition_cases hp with ⟨-, hfiles⟩ | ⟨r₀, r₁, _, hr₀, -, hfiles, -⟩
        · exact hbefore r' (hfiles ▸ hr')
        · rw [hfiles] at hr'
          change (s.files.records.insert id'' r₁)[id]? = some r' at hr'
          rw [ExtTreeMap.getElem?_insert] at hr'
          split at hr'
          · rename_i heq
            rw [Std.LawfulEqOrd.eq_of_compare heq] at hr₀
            exact hbefore r₀ hr₀
          · exact hbefore r' hr'
      | _ =>
        have hsame : s'.files = s.files := (congrArg Prod.snd hp).symm
        exact hbefore r' (hsame ▸ hr')
    · exact hbefore r' (hfiles ▸ hr')
  · rw [hs.files_eq fun call heq => hr ⟨call, heq⟩] at hr'
    exact hbefore r' hr'

end Shared

end ExecutionControl
