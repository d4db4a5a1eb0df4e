import ExecutionControl.Proofs.Admission.Stages
import ExecutionControl.Proofs.CoordinationCalls

/-! # What one request of an operation does

    A permitted request that is answered does one of few things to the store, and moves the
    stage of its operation to match: it draws a token, takes or gives back a lock, counts,
    takes a slot, frees slots, or touches no lock and no slot at all. `Move` lists them and
    `Move.of_permits` says that there is nothing else; every invariant of the store goes
    through these cases.
-/

namespace ExecutionControl

/-! ### Moves -/

/-- What an answered request does to the store and to the stage of its operation. -/
inductive Move (a : Admission) (op : Operation) (s : Shared) (g : Stage) (x : Exchange)
    (s' : Shared) : Prop
  /-- A token is drawn. -/
  | draw (token : String) (hnone : g.token = none) (hfresh : token ∉ s.drawn)
      (hdrawn : s'.drawn = token :: s.drawn) (hcoord : s'.coord = s.coord)
      (hg : g.after a x = { g with token := some token })
  /-- The lock of an organisation is taken. -/
  | lock (c : ExecutionContext) (now : Timestamp) (token : String) (hop : op = .tryAdmit c now)
      (htoken : g.token = some token)
      (hfree : s.coord.live? s'.now (Key.orgLock c.orgId) = none)
      (hcoord : s'.coord = s.coord.put (Key.orgLock c.orgId)
        ⟨.text token, some (s'.now + a.config.lockTtl.nanos)⟩)
      (hg : g.after a x =
        { g with since := some s'.now, orgCount := none, globalCount := none })
  /-- The lock of an organisation is given back, or that fails. -/
  | unlock (c : ExecutionContext) (now : Timestamp) (token : String)
      (hop : op = .tryAdmit c now) (htoken : g.token = some token)
      (hcoord : s'.coord = s.coord ∨
        (s.coord.isHeldBy s'.now (Key.orgLock c.orgId) token = true ∧
          s'.coord = s.coord.drop (Key.orgLock c.orgId)) ∨
        (s.coord.isHeldBy s'.now (Key.orgLock c.orgId) token = false ∧
          s'.coord = s.coord.settle s'.now (Key.orgLock c.orgId)))
      (hg : g.after a x = { g with since := none, orgCount := none, globalCount := none })
  /-- The slots under a key are counted. -/
  | count (key : String)
      (hkey : ∀ c now, op = .tryAdmit c now → key = Key.orgSlots c.orgId ∨ key = Key.globalSlots)
      (hcoord : s'.coord = s.coord)
      (hg : g.after a x =
        if key = Key.globalSlots then
          { g with globalCount := some (s'.coord.slots s'.now key).size }
        else { g with orgCount := some (s'.coord.slots s'.now key).size })
  /-- A slot is taken, or that fails. -/
  | add (key member : String) (score : Float) (hkey : Key.IsSlots key) (hx : x.AddsTo key)
      (hcoord : s'.coord = s.coord ∨ s'.coord = s.coord.putMembers s'.now key
        ((s.coord.slots s'.now key).insert member score))
      (hg : g.after a x = if key = Key.globalSlots then { g with globalCount := none }
        else { g with orgCount := none })
  /-- Slots under a key are freed. -/
  | free (key : String) (m : Members) (hkey : Key.IsSlots key)
      (hm : m.size ≤ (s.coord.slots s'.now key).size)
      (hcoord : s'.coord = s.coord.putMembers s'.now key m) (hg : g.after a x = g)
  /-- No lock and no slot is touched. -/
  | other
      (hcoord : ∀ k, (∀ o, k ≠ Key.limitCache o) →
        s'.coord.entries[k]? = s.coord.entries[k]?)
      (hg : ∃ l, g.after a x = { g with limit := l })

namespace Move

variable {a : Admission} {op : Operation} {s s' : Shared} {g : Stage} {x : Exchange}

/-- A request that changes nothing but what the operation knows of its ceiling. -/
theorem other_of_coord_eq (hcoord : s'.coord = s.coord)
    (hg : ∃ l, g.after a x = { g with limit := l }) : Move a op s g x s' :=
  .other (fun k _ => by rw [hcoord]) hg

/-- A removal that may have failed. -/
theorem free_or_other {key : String} {m : Members} (hkey : Key.IsSlots key)
    (hm : m.size ≤ (s.coord.slots s'.now key).size)
    (hcoord : s'.coord = s.coord ∨ s'.coord = s.coord.putMembers s'.now key m)
    (hg : g.after a x = g) : Move a op s g x s' := by
  rcases hcoord with hcoord | hcoord
  · exact other_of_coord_eq hcoord ⟨g.limit, hg⟩
  · exact .free key m hkey hm hcoord hg

/-- What a permitted call to the coordination store does. -/
theorem of_permits_coord {call : CoordCall} {reply : Except CoordError call.Result} {F : Faults}
    (hg : g.Permits a op (.coord call)) (hs : s.Serves F (.coord call) (.ok reply) s') :
    Move a op s g ⟨s'.now, .coord call, reply⟩ s' := by
  have hdone := hs.answered
  cases call with
  | addMember key member score =>
    have hkey : Key.IsSlots key := by
      obtain ⟨c, _, _, _, _, _, ⟨rfl, _⟩ | ⟨rfl, _⟩⟩ := hg
      · exact Key.isSlots_orgSlots c.orgId
      · exact Key.isSlots_globalSlots
    refine .add key member score hkey ⟨_, _, _, _, rfl⟩ ?_ (by cases reply <;> rfl)
    rcases hdone with hp | ⟨_, hcoord⟩
    · rcases CoordStore.perform_addMember hp with ⟨_, hcoord⟩ | ⟨_, hcoord⟩
      · exact Or.inl hcoord
      · exact Or.inr hcoord
    · exact Or.inl hcoord
  | removeMember key member =>
    refine free_or_other (m := (s.coord.slots s'.now key).erase member) hg
      Std.ExtTreeMap.size_erase_le ?_ rfl
    rcases hdone with hp | ⟨_, hcoord⟩
    · rcases CoordStore.perform_removeMember hp with ⟨_, hcoord⟩ | ⟨_, hcoord⟩
      · exact Or.inl hcoord
      · exact Or.inr hcoord
    · exact Or.inl hcoord
  | removeScores key low high =>
    refine free_or_other (m := CoordStore.keptScores low high (s.coord.slots s'.now key)) hg
      Std.ExtTreeMap.size_filter_le_size ?_ rfl
    rcases hdone with hp | ⟨_, hcoord⟩
    · rcases CoordStore.perform_removeScores hp with ⟨_, hcoord⟩ | ⟨_, hcoord⟩
      · exact Or.inl hcoord
      · exact Or.inr hcoord
    · exact Or.inl hcoord
  | cardinality key =>
    rcases hdone with hp | ⟨⟨e, _, rfl⟩, hcoord⟩
    · obtain ⟨hcoord, hcount⟩ := CoordStore.perform_cardinality hp
      cases reply with
      | error e => exact other_of_coord_eq hcoord ⟨g.limit, rfl⟩
      | ok n =>
        refine .count key hg hcoord ?_
        rw [hcoord, ← hcount n rfl]
        rfl
    · exact other_of_coord_eq hcoord ⟨g.limit, rfl⟩
  | getText key =>
    have hcoord : s'.coord = s.coord := by
      rcases hdone with hp | ⟨_, hcoord⟩
      · exact (CoordStore.perform_getText hp).1
      · exact hcoord
    -- A ceiling that was cached is a ceiling that is read.
    refine other_of_coord_eq hcoord ?_
    rcases reply with e | text
    · exact ⟨g.limit, rfl⟩
    · cases text with
      | none => exact ⟨g.limit, rfl⟩
      | some raw =>
        cases hraw : LimitCache.cachedLimit? raw with
        | some n => exact ⟨some n, by simp only [Stage.after, hraw]⟩
        | none => exact ⟨g.limit, by simp only [Stage.after, hraw]⟩
  | scan start =>
    have hcoord : s'.coord = s.coord := by
      rcases hdone with hp | ⟨_, hcoord⟩
      · exact CoordStore.perform_scan hp
      · exact hcoord
    exact other_of_coord_eq hcoord ⟨g.limit, rfl⟩
  | setText key value ttl =>
    obtain ⟨o, _, _, rfl, _⟩ := hg
    refine .other (fun k hk => ?_) ⟨g.limit, rfl⟩
    rcases hdone with hp | ⟨_, hcoord⟩
    · exact CoordStore.perform_entries_of_ne hp (hk o) fun _ h => by cases h
    · rw [hcoord]
  | delete key =>
    obtain ⟨o, _, rfl⟩ := hg
    refine .other (fun k hk => ?_) ⟨g.limit, rfl⟩
    rcases hdone with hp | ⟨_, hcoord⟩
    · exact CoordStore.perform_entries_of_ne hp (hk o) fun _ h => by cases h
    · rw [hcoord]
  | tryLock key token ttl =>
    obtain ⟨c, now, hop, rfl, htoken, _, rfl⟩ := hg
    rcases hdone with hp | ⟨⟨e, _, rfl⟩, hcoord⟩
    · rcases CoordStore.perform_tryLock hp with ⟨hreply, hcoord⟩ | ⟨rfl, hfree, hcoord⟩
      · -- The stage changes only with a lock that is taken.
        refine other_of_coord_eq hcoord ⟨g.limit, ?_⟩
        rcases reply with e | taken
        · rfl
        · cases taken with
          | false => rfl
          | true => exact absurd rfl hreply
      · exact .lock c now token hop htoken hfree hcoord rfl
    · exact other_of_coord_eq hcoord ⟨g.limit, rfl⟩
  | unlock key token =>
    obtain ⟨c, now, hop, rfl, htoken⟩ := hg
    refine .unlock c now token hop htoken ?_ (by cases reply <;> rfl)
    rcases hdone with hp | ⟨_, hcoord⟩
    · rcases CoordStore.perform_unlock hp with ⟨_, hcoord⟩ | ⟨hheld, hcoord⟩ | ⟨hheld, hcoord⟩
      · exact Or.inl hcoord
      · exact Or.inr (Or.inl ⟨hheld, hcoord⟩)
      · exact Or.inr (Or.inr ⟨hheld, hcoord⟩)
    · exact Or.inl hcoord
  -- No operation on slots makes these calls.
  | setFields key fields => exact absurd hg id
  | setNewField key field value => exact absurd hg id
  | getFields key => exact absurd hg id
  | increment key field delta => exact absurd hg id
  | expire key ttl => exact absurd hg id
  | deletePattern pattern => exact absurd hg id

/-- A permitted request that is answered makes a move. -/
theorem of_permits {r : Request} {reply : r.Reply} {F : Faults} (hg : g.Permits a op r)
    (hs : s.Serves F r (.ok reply) s') : Move a op s g ⟨s'.now, r, reply⟩ s' := by
  cases r with
  | coord call => exact of_permits_coord hg hs
  | token =>
    obtain ⟨_, _, _, hnone⟩ := hg
    obtain ⟨hfresh, hdrawn⟩ := hs.token
    exact .draw reply hnone hfresh hdrawn (hs.coord_eq fun _ h => by cases h) rfl
  | files call => exact absurd hg id
  | limits call =>
    refine other_of_coord_eq (hs.coord_eq fun _ h => by cases h) ?_
    cases call with
    | get o => cases reply <;> exact ⟨_, rfl⟩
    | upsert o limit => exact ⟨g.limit, rfl⟩
    | delete o => exact ⟨g.limit, rfl⟩
    | list => exact ⟨g.limit, rfl⟩
  | clock => exact other_of_coord_eq (hs.coord_eq fun _ h => by cases h) ⟨g.limit, rfl⟩
  | sleep span => exact other_of_coord_eq (hs.coord_eq fun _ h => by cases h) ⟨g.limit, rfl⟩
  | time => exact other_of_coord_eq (hs.coord_eq fun _ h => by cases h) ⟨g.limit, rfl⟩
  | report event => exact other_of_coord_eq (hs.coord_eq fun _ h => by cases h) ⟨g.limit, rfl⟩
  | stop overflow => exact reply.elim

end Move

/-! ### Steps of scenes -/

section Steps

variable {a : Admission} {F : Faults} {C : Scene a.repertoire → Prop}
  {σ σ' : Scene a.repertoire}

/-- Nothing happens to the store, and no worker learns anything. -/
structure Scene.Quiet (σ σ' : Scene a.repertoire) : Prop where
  coord : σ'.shared.coord = σ.shared.coord
  drawn : σ'.shared.drawn = σ.shared.drawn
  now : σ.shared.now ≤ σ'.shared.now
  /-- A worker is new, or it was there before. -/
  workers : ∀ (j : Nat) v, σ'.workers[j]? = some v →
    σ.workers[j]? = none ∧ a.discipline.stageOf v = {} ∨
      ∃ w, σ.workers[j]? = some w ∧ v.op = w.op ∧ v.log = w.log ∧
        a.discipline.stageOf v = a.discipline.stageOf w ∧ (v.isRunning → w.isRunning)

/-- One worker is answered. -/
structure Scene.Moves (σ σ' : Scene a.repertoire) (i : Nat) (w : Worker a.repertoire)
    (x : Exchange) : Prop where
  worker : σ.workers[i]? = some w
  running : w.isRunning
  now : σ.shared.now ≤ σ'.shared.now
  drawn : σ.shared.drawn ⊆ σ'.shared.drawn
  time : x.time = σ'.shared.now
  permits : (a.discipline.stageOf w).Permits a w.op x.request
  workers : ∃ left, σ'.workers = σ.workers.set i ⟨w.op, left, x :: w.log⟩
  move : Move a w.op σ.shared (a.discipline.stageOf w) x σ'.shared

/-- In a step nothing happens, or one worker is answered. -/
theorem Scene.Step.quiet_or_moves (h : σ.Step F σ') (hσ : Reachable F C σ) :
    σ.Quiet σ' ∨ ∃ i w x, σ.Moves σ' i w x := by
  cases h with
  | start op =>
    refine Or.inl ⟨rfl, rfl, Nat.le_refl _, fun j v hv => ?_⟩
    rcases worker_of_start hv with hv | ⟨rfl, rfl⟩
    · exact Or.inr ⟨v, hv, rfl, rfl, rfl, id⟩
    · exact Or.inl ⟨List.getElem?_eq_none (Nat.le_refl _), rfl⟩
  | wait ht => exact Or.inl ⟨rfl, rfl, ht, fun j v hv => Or.inr ⟨v, hv, rfl, rfl, rfl, id⟩⟩
  | @asked s s' ws i w r next reply hw hleft hs =>
    have hpermits := (Admission.discipline_holds a).permits hσ hw hleft
    exact Or.inr ⟨i, w, ⟨s'.now, r, reply⟩, hw, Worker.isRunning_of_left hleft, hs.now_le,
      hs.drawn_subset, rfl, hpermits, ⟨_, rfl⟩, Move.of_permits hpermits hs⟩
  | @stopped s s' ws i w r next o hw hleft hs =>
    obtain ⟨hcoord, hdrawn⟩ := hs.stopped
    refine Or.inl ⟨hcoord, hdrawn, hs.now_le, fun j v hv => Or.inr ?_⟩
    rcases worker_of_set hw hv with ⟨rfl, rfl⟩ | ⟨_, hv⟩
    · exact ⟨w, hw, rfl, rfl, rfl, fun _ => Worker.isRunning_of_left hleft⟩
    · exact ⟨v, hv, rfl, rfl, rfl, id⟩

variable {i j : Nat} {v w : Worker a.repertoire} {x : Exchange}

/-- The worker that is answered and no other learns from the answer. -/
theorem Scene.Moves.worker_of (h : σ.Moves σ' i w x) (hv : σ'.workers[j]? = some v) :
    (j = i ∧ v.op = w.op ∧ v.log = x :: w.log ∧
        a.discipline.stageOf v = (a.discipline.stageOf w).after a x) ∨
      j ≠ i ∧ σ.workers[j]? = some v := by
  obtain ⟨left, hworkers⟩ := h.workers
  rw [hworkers] at hv
  rcases worker_of_set h.worker hv with ⟨hj, rfl⟩ | ⟨hj, hv⟩
  · exact Or.inl ⟨hj, rfl, rfl, rfl⟩
  · exact Or.inr ⟨hj, hv⟩

/-- Only an admission asks for slots, under the lock and below a ceiling. -/
theorem Scene.Moves.of_add {key : String} (h : σ.Moves σ' i w x) (hx : x.AddsTo key) :
    ∃ c n t, w.op = .tryAdmit c n ∧ (a.discipline.stageOf w).since = some t ∧
      ((key = Key.orgSlots c.orgId ∧ ∃ m limit, (a.discipline.stageOf w).orgCount = some m ∧
          (a.discipline.stageOf w).limit = some limit ∧ m < limit) ∨
        (key = Key.globalSlots ∧
          ∃ m, (a.discipline.stageOf w).globalCount = some m ∧ m < a.config.globalLimit)) := by
  obtain ⟨_, _, _, _, rfl⟩ := hx
  obtain ⟨c, n, t, hop, hsince, _, hbelow⟩ := h.permits
  exact ⟨c, n, t, hop, hsince, hbelow⟩

end Steps

end ExecutionControl
