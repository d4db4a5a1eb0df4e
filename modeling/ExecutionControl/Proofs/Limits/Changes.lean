import ExecutionControl.Proofs.CoordinationCalls
import ExecutionControl.Proofs.Limits.Operations
import ExecutionControl.Proofs.Numerals

/-! # What the operations on limits change

    One request at a time: what may become of the durable row of an organisation
    (`Serves.row_eq_or`) and of an entry of the coordination store (`Serves.entry_cases`),
    and what a request that reads one of them has read.
-/

namespace ExecutionControl

/-- A request wrote or removed the row of an organisation. -/
inductive Exchange.WritesRow (orgId : String) (x : Exchange) : Prop
  | upsert {t : Moment} {n : Nat} {row : OrgLimit}
      (hx : x = ⟨t, .limits (.upsert orgId n), .ok row⟩)
  | delete {t : Moment} {existed : Bool} (hx : x = ⟨t, .limits (.delete orgId), .ok existed⟩)

/-- Only an operation that writes the limit of an organisation writes its row. -/
theorem LimitOperation.Permits.writes {c : LimitCache} {op : LimitOperation} {log : Log}
    {x : Exchange} {orgId : String} (h : op.Permits c log x.request) (hx : x.WritesRow orgId) :
    op.Writes orgId := by
  cases hx with
  | upsert hx => subst hx; rw [h.2]; rfl
  | delete hx => subst hx; rw [h.2]; rfl

namespace Shared

variable {F : Faults} {s s' : Shared} {r : Request} {reply : r.Reply} {c : LimitCache}
  {op : LimitOperation} {log : Log} {orgId key : String}

/-- What may become of an entry: it stays, or it goes, or a limit is cached there. -/
theorem Serves.entry_cases (h : s.Serves F r (.ok reply) s') (hr : op.Permits c log r)
    (key : String) :
    s'.coord.entries[key]? = s.coord.entries[key]? ∨ s'.coord.entries[key]? = none ∨
      ∃ value, r = .coord (.setText key value (some c.ttl)) ∧
        s'.coord.entries[key]? = some ⟨.text value, some (s'.now + c.ttl.nanos)⟩ := by
  cases r with
  | coord call =>
    rcases h.answered with hp | ⟨_, hcoord⟩
    · cases call with
      | getText k => rw [(CoordStore.perform_getText hp).1]; exact .inl rfl
      | scan start => rw [CoordStore.perform_scan hp]; exact .inl rfl
      | setText k value ttl =>
        obtain ⟨-, org, row, -, -, rfl, -, -⟩ := hr
        rcases CoordStore.perform_setText_ttl hp with ⟨_, _, hcoord⟩ | ⟨_, hcoord⟩ <;> rw [hcoord]
        · exact .inl rfl
        · by_cases hk : key = k
          · subst hk
            exact .inr (.inr ⟨value, rfl, CoordStore.entries_put_self⟩)
          · exact .inl (CoordStore.entries_put_of_ne hk)
      | delete k =>
        rcases CoordStore.perform_delete hp with hcoord | hcoord <;> rw [hcoord]
        · exact .inl rfl
        · by_cases hk : key = k
          · subst hk
            exact .inr (.inl CoordStore.entries_drop_self)
          · exact .inl (CoordStore.entries_drop_of_ne hk)
      | deletePattern pattern =>
        exact ((CoordStore.perform_deletePattern hp).2 key).imp_right .inl
      | _ => exact hr.2.elim
    · rw [hcoord]
      exact .inl rfl
  | _ => rw [h.coord_eq nofun]; exact .inl rfl

/-- A request that overflows is one to cache a limit until beyond the clock. -/
theorem Serves.overflow_cases {o : Overflow} (h : s.Serves F r (.error o) s')
    (hr : op.Permits c log r) :
    o = .deadline ∧ Moment.bound ≤ s'.now + c.ttl.nanos ∧ r.caches = true := by
  obtain ⟨call, rfl, hp⟩ : ∃ call, r = .coord call ∧ s.coord.perform s'.now call = .error o := by
    rcases h.overflow with hcall | rfl
    · exact hcall
    · exact hr.2.elim
  cases call with
  | setText k value ttl =>
    obtain ⟨-, org, row, -, -, rfl, -, -⟩ := hr
    obtain ⟨ho, hbound⟩ := CoordStore.perform_setText_error hp
    exact ⟨ho, hbound, rfl⟩
  | getText _ => cases hp
  | delete _ => cases hp
  | deletePattern _ => cases hp
  | scan _ => cases hp
  | _ => exact hr.2.elim

/-- The row of an organisation stays, or it is written. -/
theorem Serves.row_eq_or (h : s.Serves F r (.ok reply) s') (t : Moment) (orgId : String) :
    s'.limits.get orgId = s.limits.get orgId ∨ Exchange.WritesRow orgId ⟨t, r, reply⟩ := by
  by_cases hr : ∃ call, r = .limits call
  · obtain ⟨call, rfl⟩ := hr
    obtain ⟨t', -, ⟨time, hreply, rfl⟩ | ⟨-, rfl⟩⟩ := h
    · cases hreply
      cases call with
      | upsert o n =>
        simp only [wait, LimitTable.perform, LimitTable.upsert]
        -- A limit of zero is refused.
        by_cases hn : n = 0
        · simp only [hn, if_true]
          exact .inl trivial
        · simp only [hn, if_false]
          by_cases ho : o = orgId
          · subst ho
            exact .inr (.upsert rfl)
          · left
            simp [LimitTable.get, Std.ExtTreeMap.getElem?_insert, ho]
      | delete o =>
        by_cases ho : o = orgId
        · subst ho
          exact .inr (.delete rfl)
        · left
          simp [LimitTable.perform, LimitTable.delete, LimitTable.get, wait,
            Std.ExtTreeMap.getElem?_erase, ho]
      | _ => exact .inl rfl
    · exact .inl rfl
  · rw [h.frame.limits fun call heq => hr ⟨call, heq⟩]
    exact .inl rfl

/-- A limit that was written is there; zero is never written. -/
theorem Serves.limits_upsert {n : Nat} {row : OrgLimit}
    (h : s.Serves F (.limits (.upsert orgId n)) (.ok (.ok row)) s') :
    0 < n ∧ s'.limits.get orgId = some row ∧ row.concurrentRequestLimit = n := by
  obtain ⟨t, -, ⟨time, hreply, rfl⟩ | ⟨⟨b, ⟨e, -, rfl⟩, hreply⟩, -⟩⟩ := h
  · simp only [LimitTable.perform, LimitTable.upsert] at hreply ⊢
    by_cases hn : n = 0
    · simp only [hn, if_true] at hreply
      cases hreply
    · simp only [hn, if_false] at hreply ⊢
      cases hreply
      exact ⟨Nat.pos_of_ne_zero hn, by simp [LimitTable.get], rfl⟩
  · cases hreply

/-- A row that was removed is not there. -/
theorem Serves.limits_delete {existed : Bool}
    (h : s.Serves F (.limits (.delete orgId)) (.ok (.ok existed)) s') :
    s'.limits.get orgId = none := by
  obtain ⟨t, -, ⟨time, hreply, rfl⟩ | ⟨⟨b, ⟨e, -, rfl⟩, hreply⟩, -⟩⟩ := h
  · simp [LimitTable.perform, LimitTable.delete, LimitTable.get]
  · cases hreply

/-- What is read from the durable table is what is there. -/
theorem Serves.limits_get {row : Option OrgLimit}
    (h : s.Serves F (.limits (.get orgId)) (.ok (.ok row)) s') : row = s'.limits.get orgId := by
  obtain ⟨t, -, ⟨time, hreply, rfl⟩ | ⟨⟨b, ⟨e, -, rfl⟩, hreply⟩, -⟩⟩ := h
  · cases hreply
    rfl
  · cases hreply

/-- A call to the durable table that fails leaves it as it is. -/
theorem Serves.limits_error {call : LimitCall} {e : StoreError}
    (h : s.Serves F (.limits call) (.ok (.error e)) s') : s'.limits = s.limits := by
  obtain ⟨t, -, ⟨time, hreply, rfl⟩ | ⟨-, rfl⟩⟩ := h
  · cases call with
    | upsert orgId n =>
      simp only [LimitTable.perform, LimitTable.upsert] at hreply ⊢
      by_cases hn : n = 0
      · simp only [hn, if_true]
        rfl
      · simp only [hn, if_false] at hreply
        cases hreply
    | _ => cases hreply
  · rfl

/-- What is read from the coordination store is what is there. -/
theorem Serves.getText {raw : String}
    (h : s.Serves F (.coord (.getText key)) (.ok (.ok (some raw))) s') :
    s'.coord.datum? s'.now key = some (.text raw) := by
  rcases h.answered with hp | ⟨⟨e, -, hreply⟩, -⟩
  · obtain ⟨hdatum, hcoord⟩ := CoordStore.perform_getText_ok hp
    rw [hcoord]
    exact hdatum
  · cases hreply

/-- What was dropped is gone. -/
theorem Serves.delete {existed : Bool}
    (h : s.Serves F (.coord (.delete key)) (.ok (.ok existed)) s') :
    s'.coord.entries[key]? = none := by
  rcases h.answered with hp | ⟨⟨e, -, hreply⟩, -⟩
  · rcases CoordStore.perform_delete_cases hp with ⟨⟨_, herror⟩, -⟩ | ⟨-, hcoord⟩
    · cases herror
    · rw [hcoord]
      exact CoordStore.entries_drop_self
  · cases hreply

/-- A request that overflows changes nothing but the time. -/
theorem Serves.stopped_limits {o : Overflow} (h : s.Serves F r (.error o) s') :
    s'.coord = s.coord ∧ s'.limits = s.limits := by
  refine ⟨h.stopped.1, ?_⟩
  rcases h.overflow with ⟨call, rfl, -⟩ | rfl
  · exact h.coord.1
  · exact h.frame.limits nofun

/-! ### Stores that never fail -/

theorem Serves.limits_get_ne_error {e : StoreError} :
    ¬ s.Serves .never (.limits (.get orgId)) (.ok (.error e)) s' := by
  rintro ⟨t, -, ⟨time, hreply, -⟩ | ⟨⟨b, ⟨_, hfails, -⟩, -⟩, -⟩⟩
  · cases hreply
  · exact hfails

theorem Serves.limits_delete_ne_error {e : StoreError} :
    ¬ s.Serves .never (.limits (.delete orgId)) (.ok (.error e)) s' := by
  rintro ⟨t, -, ⟨time, hreply, -⟩ | ⟨⟨b, ⟨_, hfails, -⟩, -⟩, -⟩⟩
  · cases hreply
  · exact hfails

/-- A write is refused for a limit of zero only. -/
theorem Serves.limits_upsert_ne_error {n : Nat} {e : StoreError} (hn : 0 < n) :
    ¬ s.Serves .never (.limits (.upsert orgId n)) (.ok (.error e)) s' := by
  rintro ⟨t, -, ⟨time, hreply, -⟩ | ⟨⟨b, ⟨_, hfails, -⟩, -⟩, -⟩⟩
  · have hpos : n ≠ 0 := Nat.pos_iff_ne_zero.mp hn
    simp only [LimitTable.perform, LimitTable.upsert, hpos, if_false] at hreply
    cases hreply
  · exact hfails

theorem Serves.delete_ne_error {e : CoordError} (havailable : s.coord.available = true) :
    ¬ s.Serves .never (.coord (.delete key)) (.ok (.error e)) s' := by
  intro h
  rcases h.answered with hp | ⟨⟨_, hfails, -⟩, -⟩
  · rcases CoordStore.perform_delete_cases hp with ⟨-, hunavailable, -⟩ | ⟨⟨_, hok⟩, -⟩
    · rw [havailable] at hunavailable
      cases hunavailable
    · cases hok
  · exact hfails

end Shared

namespace LimitCache

theorem cachedLimit?_pos {raw : String} {n : Nat} (h : cachedLimit? raw = some n) : 0 < n := by
  unfold cachedLimit? at h
  split at h
  · split at h
    · rename_i hpos
      cases h
      exact hpos
    · cases h
  · cases h

/-- A limit that is cached is read back as it was written, if it is read at all. -/
theorem eq_of_cachedLimit?_toString {n m : Nat} (h : cachedLimit? (toString n) = some m) :
    m = n := by
  unfold cachedLimit? at h
  split at h
  · rename_i k hread
    split at h
    · cases h
      exact Text.eq_of_readNat_toString hread
    · cases h
  · cases h

end LimitCache

end ExecutionControl
