import ExecutionControl.Proofs.Admission.Ceiling
import ExecutionControl.Proofs.Limits.Changes
import ExecutionControl.Proofs.Requests

/-! # The limits that are looked up without trouble

    Where no call fails and no limit is cached but those that the organisations have, an
    operation on slots that runs alone looks up the limit that its organisation has, and
    again no other limits are cached after it (`current_program`).

    `Informed` holds at every point between two requests. It speaks of all organisations but
    the one whose limit the operation changes. The cached limit of that one is out of date
    until it is dropped, which the two operations that change limits do last.
-/

namespace ExecutionControl

/-! ### What a stage knows of a limit -/

/-- A stage learns a limit from the cache or from the durable table, or else it knows of it
    what it knew before. -/
theorem Stage.limit_after (a : Admission) (g : Stage) (x : Exchange) :
    (g.after a x).limit = g.limit ∨
    (∃ t key raw n, x = ⟨t, .coord (.getText key), .ok (some raw)⟩ ∧
      LimitCache.cachedLimit? raw = some n ∧ (g.after a x).limit = some n) ∨
    (∃ t o row, x = ⟨t, .limits (.get o), .ok row⟩ ∧
      (g.after a x).limit = some (a.cache.limitOfRow row)) ∨
    ∃ t o e, x = ⟨t, .limits (.get o), .error e⟩ := by
  obtain ⟨t, r, reply⟩ := x
  cases r with
  | limits call =>
    cases call with
    | get o =>
      cases reply with
      | ok row => exact .inr (.inr (.inl ⟨t, o, row, rfl, rfl⟩))
      | error e => exact .inr (.inr (.inr ⟨t, o, e, rfl⟩))
    | _ => exact .inl rfl
  | coord call =>
    cases call with
    | getText key =>
      cases reply with
      | error e => exact .inl rfl
      | ok cached =>
        cases cached with
        | none => exact .inl rfl
        | some raw =>
          cases hraw : LimitCache.cachedLimit? raw with
          | none => exact .inl (by simp only [Stage.after, hraw])
          | some n =>
            exact .inr (.inl ⟨t, key, raw, n, rfl, hraw, by simp only [Stage.after, hraw]⟩)
    | tryLock key token ttl =>
      cases reply with
      | error e => exact .inl rfl
      | ok locked => cases locked <;> exact .inl rfl
    | cardinality key =>
      cases reply with
      | ok n => by_cases hkey : key = Key.globalSlots <;> simp [Stage.after, hkey]
      | error e => exact .inl rfl
    | addMember key member score =>
      by_cases hkey : key = Key.globalSlots <;> simp [Stage.after, hkey]
    | _ => exact .inl rfl
  | _ => exact .inl rfl

namespace Admission

/-! ### Limits that are cached -/

/-- The limit that an organisation has: its durable one, or the default. -/
def effectiveLimit (a : Admission) (orgId : String) (s : Shared) : Nat :=
  a.cache.limitOfRow (s.limits.get orgId)

/-- Whether a limit that is cached for an organisation is the one that it has. -/
def CurrentFor (a : Admission) (orgId : String) (s : Shared) : Prop :=
  ∀ (raw : String) (n : Nat), s.coord.datum? s.now (Key.limitCache orgId) = some (.text raw) →
    LimitCache.cachedLimit? raw = some n → n = a.effectiveLimit orgId s

/-- Whether no limit is cached but those that the organisations have. -/
def Current (a : Admission) (s : Shared) : Prop := ∀ orgId, a.CurrentFor orgId s

variable {a : Admission} {op : Operation} {orgId : String} {n : Nat} {g : Stage}
  {s₀ s s' : Shared} {p : Point} {r : Request} {reply : r.Reply}

theorem effectiveLimit_congr (h : s'.limits.get orgId = s.limits.get orgId) :
    a.effectiveLimit orgId s' = a.effectiveLimit orgId s := by
  unfold effectiveLimit
  rw [h]

theorem CurrentFor.later (h : a.CurrentFor orgId s) (hnow : s.now ≤ s'.now)
    (hrow : s'.limits.get orgId = s.limits.get orgId)
    (hentry : s'.coord.entries[Key.limitCache orgId]? = s.coord.entries[Key.limitCache orgId]?) :
    a.CurrentFor orgId s' := by
  intro raw n hdatum hraw
  rw [CoordStore.datum?_congr hentry] at hdatum
  rw [effectiveLimit_congr hrow]
  exact h raw n (CoordStore.datum?_of_le hnow hdatum) hraw

theorem CurrentFor.of_absent (h : s.coord.entries[Key.limitCache orgId]? = none) :
    a.CurrentFor orgId s := by
  intro raw n hdatum
  rw [CoordStore.datum?, CoordStore.live?_of_absent h] at hdatum
  cases hdatum

/-- A limit is read back as it was written. -/
theorem CurrentFor.of_written {deadline : Option Moment}
    (h : s.coord.entries[Key.limitCache orgId]? = some ⟨.text (toString n), deadline⟩)
    (hn : n = a.effectiveLimit orgId s) : a.CurrentFor orgId s := by
  intro raw m hdatum hraw
  obtain ⟨e, he, hraw'⟩ := Option.map_eq_some_iff.mp hdatum
  obtain ⟨hentry, -⟩ := CoordStore.live?_eq_some.mp he
  rw [h] at hentry
  cases hentry
  cases hraw'
  rw [LimitCache.eq_of_cachedLimit?_toString hraw, hn]

/-- In a store without entries no limit is cached. -/
theorem Current.of_empty (h : s.coord.entries = ∅) : a.Current s := by
  intro orgId
  apply CurrentFor.of_absent
  rw [h, Std.ExtTreeMap.getElem?_empty]

/-! ### One request -/

/-- A permitted request writes the row of that organisation only whose limit is changed. -/
theorem row_eq_of_permits (hr : g.Permits a op r) (hs : s.Serves .never r (.ok reply) s')
    (hkept : op.changes? ≠ some orgId) : s'.limits.get orgId = s.limits.get orgId := by
  rcases hs.row_eq_or 0 orgId with hsame | hwritten
  · exact hsame
  · cases hwritten with
    | upsert hx =>
      cases hx
      exact absurd hr hkept
    | delete hx =>
      cases hx
      exact absurd hr hkept

/-- What may become of the cached limit of another organisation: it stays, or the limit that
    was looked up is cached. -/
theorem limitCache_cases (hr : g.Permits a op r) (hs : s.Serves .never r (.ok reply) s')
    (hkept : op.changes? ≠ some orgId) :
    s'.coord.entries[Key.limitCache orgId]? = s.coord.entries[Key.limitCache orgId]? ∨
      ∃ n deadline, op.looksUp? = some orgId ∧ g.limit = some n ∧
        s'.coord.entries[Key.limitCache orgId]? = some ⟨.text (toString n), deadline⟩ := by
  cases r with
  | coord call =>
    rcases hs.answered with hp | ⟨⟨_, hfault, -⟩, -⟩
    · have hother : Key.limitCache orgId ≠ call.subject →
          (∀ pattern, call ≠ .deletePattern pattern) →
          s'.coord.entries[Key.limitCache orgId]? = s.coord.entries[Key.limitCache orgId]? :=
        CoordStore.perform_entries_of_ne hp
      have hslots : ∀ {key : String}, Key.IsSlots key → Key.limitCache orgId ≠ key :=
        fun hkey => (hkey.ne_limitCache orgId).symm
      cases call with
      | getText key => exact .inl (by rw [(CoordStore.perform_getText hp).1])
      | cardinality key => exact .inl (by rw [(CoordStore.perform_cardinality hp).1])
      | scan start => exact .inl (by rw [CoordStore.perform_scan hp])
      | setText key value ttl =>
        obtain ⟨o, n, ho, rfl, hlimit, rfl⟩ := hr
        rcases CoordStore.perform_setText hp with hcoord | ⟨deadline, hcoord⟩
        · exact .inl (by rw [hcoord])
        · by_cases horg : orgId = o
          · subst horg
            refine .inr ⟨n, deadline, ho, hlimit, ?_⟩
            rw [hcoord, CoordStore.entries_put_self]
          · refine .inl (hother ?_ nofun)
            exact fun hkey => horg (Key.limitCache_injective hkey)
      | delete key =>
        obtain ⟨o, ho, rfl⟩ := hr
        refine .inl (hother ?_ nofun)
        intro hkey
        rw [Key.limitCache_injective hkey] at hkept
        exact hkept ho
      | addMember key member score =>
        obtain ⟨c, _, _, _, _, _, ⟨rfl, _⟩ | ⟨rfl, _⟩⟩ := hr
        · exact .inl (hother (hslots (Key.isSlots_orgSlots c.orgId)) nofun)
        · exact .inl (hother (hslots Key.isSlots_globalSlots) nofun)
      | removeMember key member => exact .inl (hother (hslots hr) nofun)
      | removeScores key low high => exact .inl (hother (hslots hr) nofun)
      | tryLock key token ttl =>
        obtain ⟨c, _, _, rfl, _⟩ := hr
        exact .inl (hother (Key.limitCache_ne_orgLock orgId c.orgId) nofun)
      | unlock key token =>
        obtain ⟨c, _, _, rfl, _⟩ := hr
        exact .inl (hother (Key.limitCache_ne_orgLock orgId c.orgId) nofun)
      | _ => exact hr.elim
    · exact hfault.elim
  | _ => exact .inl (by rw [hs.coord_eq nofun])

/-! ### Operations -/

/-- An operation that runs alone from `s₀`, between two requests: limits are as they were, and
    those that are cached are the right ones, but for the one that it changes. The limit that
    it has looked up is the one that the organisation has. -/
structure Informed (a : Admission) (op : Operation) (s₀ : Shared) (g : Stage) (s : Shared) :
    Prop where
  row : ∀ orgId, op.changes? ≠ some orgId → s.limits.get orgId = s₀.limits.get orgId
  current : ∀ orgId, op.changes? ≠ some orgId → a.CurrentFor orgId s
  limit : ∀ orgId n, op.looksUp? = some orgId → g.limit = some n → n = a.effectiveLimit orgId s₀

/-- No operation changes the limit that it looks up. -/
theorem changes?_ne_of_looksUp? (h : op.looksUp? = some orgId) : op.changes? ≠ some orgId := by
  intro hchanges
  cases op with
  | tryAdmit | usage => cases hchanges
  | _ => cases h

theorem Informed.start (h : a.Current s) : a.Informed op s {} s where
  row _ _ := rfl
  current orgId _ := h orgId
  limit _ _ _ hlimit := by cases hlimit

theorem Informed.asked (h : a.Informed op s₀ g s) (hr : g.Permits a op r)
    (hs : s.Serves .never r (.ok reply) s') :
    a.Informed op s₀ (g.after a ⟨s'.now, r, reply⟩) s' := by
  have hrow : ∀ orgId, op.changes? ≠ some orgId →
      s'.limits.get orgId = s₀.limits.get orgId := by
    intro orgId hkept
    rw [row_eq_of_permits hr hs hkept]
    exact h.row orgId hkept
  have hcurrent : ∀ orgId, op.changes? ≠ some orgId → a.CurrentFor orgId s' := by
    intro orgId hkept
    rcases limitCache_cases hr hs hkept with hsame | ⟨n, deadline, ho, hlimit, hwritten⟩
    · exact (h.current orgId hkept).later hs.now_le (row_eq_of_permits hr hs hkept) hsame
    · apply CurrentFor.of_written hwritten
      rw [effectiveLimit_congr (hrow orgId hkept)]
      exact h.limit orgId n ho hlimit
  refine ⟨hrow, hcurrent, fun orgId n ho hlimit => ?_⟩
  have hkept := changes?_ne_of_looksUp? ho
  rw [← effectiveLimit_congr (hrow orgId hkept)]
  rcases g.limit_after a ⟨s'.now, r, reply⟩ with
    hsame | ⟨t, key, raw, m, hx, hraw, hlearnt⟩ | ⟨t, o, row, hx, hlearnt⟩ | ⟨t, o, e, hx⟩
  · rw [effectiveLimit_congr (hrow orgId hkept)]
    exact h.limit orgId n ho (hsame ▸ hlimit)
  · cases hx
    obtain ⟨o, ho', rfl⟩ := hr
    cases ho.symm.trans ho'
    cases hlearnt.symm.trans hlimit
    exact hcurrent orgId hkept raw n hs.getText hraw
  · cases hx
    cases ho.symm.trans hr
    cases hlearnt.symm.trans hlimit
    rw [effectiveLimit, hs.limits_get]
  · cases hx
    exact absurd hs Shared.Serves.limits_get_ne_error

/-! ### Changes of limits -/

/-- Once the cached limit is dropped, none is cached but the right one. -/
theorem invalidate_drops (havailable : p.shared.coord.available = true) :
    (a.cache.invalidate orgId).ensures (serving .never fun _ _ => True)
      (fun _ p' => a.CurrentFor orgId p'.shared) p := by
  simp only [LimitCache.invalidate, Program.ensures_bind, Program.ensures_coord]
  refine ⟨fun reply s₁ hs => ?_, fun _ _ _ => trivial⟩
  cases reply with
  | ok existed => exact CurrentFor.of_absent hs.delete
  | error e => exact absurd hs (Shared.Serves.delete_ne_error havailable)

/-- An operation that changes a limit drops the cached one, unless it is refused. -/
theorem change_drops (havailable : s.coord.available = true) (h : a.CurrentFor orgId s)
    (hop : op.changes? = some orgId) :
    (a.program op).ensures (serving .never fun _ _ => True)
      (fun _ p => a.CurrentFor orgId p.shared) ⟨s, []⟩ := by
  -- A call to the durable table that fails changes nothing.
  have hrefused : ∀ {call : LimitCall} {e : StoreError} {s₁ : Shared},
      s.Serves .never (.limits call) (.ok (.error e)) s₁ → a.CurrentFor orgId s₁ := by
    intro call e s₁ hs
    exact h.later hs.now_le (by rw [hs.limits_error]) (by rw [hs.coord_eq nofun])
  cases op with
  | setLimit o n =>
    cases hop
    simp only [program, LimitCache.setLimit, Program.ensures_bind, Program.ensures_limits]
    refine ⟨fun reply s₁ hs => ?_, fun _ _ _ => trivial⟩
    cases reply with
    | error e => exact hrefused hs
    | ok row =>
      simp only [Program.ensures_bind]
      exact invalidate_drops (hs.available.trans havailable)
  | deleteLimit o =>
    cases hop
    simp only [program, LimitCache.deleteLimit, Program.ensures_bind, Program.ensures_limits]
    refine ⟨fun reply s₁ hs => ?_, fun _ _ _ => trivial⟩
    cases reply with
    | error e => exact hrefused hs
    | ok existed =>
      simp only [Program.ensures_bind]
      exact invalidate_drops (hs.available.trans havailable)
  | _ => cases hop

/-! ### Whole operations -/

/-- Where no limit is cached but those that the organisations have, an operation that runs
    alone looks up the limit that its organisation has, and leaves no other cached. -/
theorem current_program {result : op.Result} (h : a.Current s)
    (havailable : s.coord.available = true)
    (hends : (a.program op).Ends .never ⟨s, []⟩ (.ok result) p) :
    a.Current p.shared ∧ ∀ orgId n, op.looksUp? = some orgId →
      a.limitRead op p.log = some n → n = a.effectiveLimit orgId s := by
  have hkeeps := Discipline.ensures_watching [] (a.discipline_holds op)
  have hinformed : a.Informed op s (a.discipline.stage op p.log) p.shared :=
    ((Discipline.ends_watching hends hkeeps
      (I := fun p => a.Informed op s (a.discipline.stage op p.log) p.shared)
      (J := fun _ _ => True) (Informed.start h)
      (fun _ _ _ _ hI hr hs => hI.asked hr hs) fun _ _ _ _ _ _ _ => trivial).1 result rfl).1
  refine ⟨fun orgId => ?_, hinformed.limit⟩
  by_cases hchanges : op.changes? = some orgId
  · exact (hends.of_ensures (change_drops havailable (h orgId) hchanges)).1 result rfl
  · exact hinformed.current orgId hchanges

end Admission

end ExecutionControl
