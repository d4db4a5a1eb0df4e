import ExecutionControl.Operator
import ExecutionControl.Proofs.Coordination.Patterns
import ExecutionControl.Proofs.Refusals
import ExecutionControl.Proofs.Services

/-! # Two ways to drop all cached limits

    Cached limits are dropped by a pattern, or, where the store cannot delete by pattern, by
    listing their keys and deleting them one by one. If no time passes in between, both ways
    remove the same entries and count the same keys (`clearings_agree`): the pattern matches
    the keys that are listed, and a key that is listed is still live when its turn comes, since
    no key is listed twice and a deletion leaves all others alone (`run_deleteKeys`).
-/

namespace ExecutionControl

namespace CoordStore

variable {s : CoordStore} {now : Moment} {start key : String} {keys : List String}

/-! ### The keys of a pattern -/

/-- The pattern of all keys that start with a text matches exactly those. -/
theorem isMatch_star (hstar : '*' ∉ start.toList) :
    Glob.isMatch (start ++ "*") key = startsWith start key := by
  have hchars : (start ++ "*").toList = start.toList ++ ['*'] := String.toList_append
  rw [Bool.eq_iff_iff, startsWith, List.isPrefixOf_iff_prefix, Glob.isMatch,
    Glob.matchesChars_iff, hchars, Glob.fills_append_star hstar]

/-! ### Removal of many keys -/

/-- Remove the entries of keys. -/
def dropAll (s : CoordStore) (keys : List String) : CoordStore := keys.foldl drop s

theorem entries_dropAll :
    (s.dropAll keys).entries[key]? = if key ∈ keys then none else s.entries[key]? := by
  induction keys generalizing s with
  | nil => rfl
  | cons first keys ih =>
    show ((s.drop first).dropAll keys).entries[key]? = _
    rw [ih]
    by_cases hmem : key ∈ keys
    · simp [hmem]
    · by_cases hfirst : key = first
      · subst hfirst
        simp
      · simp [hmem, hfirst]

/-- Nothing but entries is removed. -/
theorem dropAll_eq : s.dropAll keys = { s with entries := (s.dropAll keys).entries } := by
  induction keys generalizing s with
  | nil => rfl
  | cons first keys ih => exact ih

/-- What is removed does not depend on whether the store can delete by pattern. -/
theorem dropAll_patternDelete (patternDelete : Bool) :
    ({ s with patternDelete } : CoordStore).dropAll keys =
      { s.dropAll keys with patternDelete } := by
  induction keys generalizing s with
  | nil => rfl
  | cons first keys ih => exact ih (s := s.drop first)

/-- The live keys that start with a text, removed one by one, are removed as if by one look at
    every entry. -/
theorem dropAll_liveKeys :
    s.dropAll (s.liveKeys now start) =
      { s with
        entries := s.entries.filter fun key e => !(e.isLive now && startsWith start key) } := by
  rw [dropAll_eq]
  congr 1
  ext1 key
  rw [entries_dropAll, Std.ExtTreeMap.getElem?_filter']
  cases hentry : s.entries[key]? with
  | none => simp
  | some e =>
    have hmem : key ∈ s.liveKeys now start ↔ (e.isLive now && startsWith start key) = true := by
      rw [mem_liveKeys, live?, hentry, Option.filter_some, Bool.and_eq_true]
      cases e.isLive now <;> simp
    rw [Option.filter_some]
    -- An entry is among the keys to be removed exactly if the one look would remove it.
    by_cases hgone : (e.isLive now && startsWith start key) = true
    · rw [if_pos (hmem.mpr hgone), hgone]
      rfl
    · rw [if_neg fun h => hgone (hmem.mp h), Bool.eq_false_iff.mpr hgone]
      rfl

/-- By a pattern the live keys that start with a text are removed together. -/
theorem perform_deletePattern_star (havailable : s.available = true)
    (hpattern : s.patternDelete = true) (hstar : '*' ∉ start.toList) :
    s.perform now (.deletePattern (start ++ "*")) =
      .ok (.ok (s.liveKeys now start).length, s.dropAll (s.liveKeys now start)) := by
  simp only [perform, deletePattern, whenAvailable, havailable, hpattern, if_true,
    isMatch_star hstar, length_liveKeys, dropAll_liveKeys]

theorem perform_delete_live (havailable : s.available = true) (hlive : (s.live? now key).isSome) :
    s.perform now (.delete key) = .ok (.ok true, s.drop key) := by
  simp only [perform, delete, whenAvailable, havailable, if_true, hlive]

end CoordStore

/-! ### Programs without delay -/

namespace Shared

variable {s : Shared} {c : CoordCall} {coord : CoordStore}

/-- The services where every request is answered at once. -/
def atOnce : Program.Services Shared := fun r s => s.answer r

theorem atOnce_coord {reply : Except CoordError c.Result}
    (h : s.coord.perform s.now c = .ok (reply, coord)) :
    atOnce (.coord c) s = (.ok reply, { s with coord }) := by
  simp only [atOnce, answer, h]

/-- A call that is carried out is followed by the rest. -/
theorem run_call {α : Type} {a : c.Result} (f : c.Result → Coord α)
    (h : s.coord.perform s.now c = .ok (.ok a, coord)) :
    (Coord.call c >>= f).run.run atOnce s = (f a).run.run atOnce { s with coord } := by
  show Program.run atOnce (.ask (.coord c) _) s = _
  rw [Program.run_ask, atOnce_coord h]
  rfl

/-- A call that may fail is followed by the rest. -/
theorem run_attempt {α : Type} {reply : Except CoordError c.Result}
    (f : Except CoordError c.Result → Coord α)
    (h : s.coord.perform s.now c = .ok (reply, coord)) :
    (Coord.attempt (Coord.call c) >>= f).run.run atOnce s =
      (f reply).run.run atOnce { s with coord } := by
  show Program.run atOnce (.ask (.coord c) _) s = _
  rw [Program.run_ask, atOnce_coord h]
  cases reply <;> rfl

/-- An action on the coordination store ends as its calls do. -/
theorem run_onCoord {α : Type} {r : Except CoordError α} {x : Coord α} {s' : Shared}
    (h : x.run.run atOnce s = (.ok r, s')) :
    (Operator.onCoord x).run.run atOnce s = (.ok (r.mapError OperatorError.coordination), s') := by
  show Program.run atOnce (x.run.bind fun r => .done (r.mapError OperatorError.coordination)) s = _
  rw [Program.run_bind, h]
  rfl

/-- Live keys that are deleted one by one are all counted. -/
theorem run_deleteKeys {keys : List String} {n : Nat} (havailable : s.coord.available = true)
    (hkeys : keys.Nodup) (hlive : ∀ key ∈ keys, (s.coord.live? s.now key).isSome) :
    (Operator.deleteKeys keys n).run.run atOnce s =
      (.ok (.ok (n + keys.length)), { s with coord := s.coord.dropAll keys }) := by
  induction keys generalizing s n with
  | nil => rfl
  | cons key keys ih =>
    obtain ⟨hkey, hkeys⟩ := List.nodup_cons.mp hkeys
    have hfirst := CoordStore.perform_delete_live havailable (hlive key List.mem_cons_self)
    -- The keys that are still to be deleted are others, and as live as before.
    have hrest : ∀ k ∈ keys, ((s.coord.drop key).live? s.now k).isSome := by
      intro k hk
      have hne : k ≠ key := fun heq => hkey (heq ▸ hk)
      rw [CoordStore.live?_congr (CoordStore.entries_drop_of_ne hne)]
      exact hlive k (List.mem_cons_of_mem key hk)
    have hmore := ih (s := { s with coord := s.coord.drop key }) (n := n + 1) havailable hkeys hrest
    rw [Operator.deleteKeys, run_call _ hfirst, if_pos rfl, hmore, List.length_cons,
      Nat.add_right_comm, Nat.add_assoc]
    rfl

/-! ### Both ways -/

/-- Drop every cached limit without delay: what it gives back, and the state after it. -/
def clearing (s : Shared) : Checked (Except OperatorError Nat) × Shared :=
  Operator.clearAllCaches.run.run atOnce s

/-- A store that cannot be reached is left as it is. -/
theorem clearing_unreachable (havailable : s.coord.available = false) :
    s.clearing = (.ok (.error (.coordination (.unavailable "connection refused"))), s) := by
  have hrefused : s.coord.perform s.now (.deletePattern Key.limitCachePattern) = _ :=
    CoordStore.perform_unreachable havailable _
  refine run_onCoord (r := .error (.unavailable "connection refused")) ?_
  rw [run_attempt _ hrefused]
  rfl

/-- Whether it can delete by pattern or not, a store that can be reached loses the keys of
    cached limits, and they are counted. -/
theorem clearing_eq (havailable : s.coord.available = true) :
    s.clearing =
      (.ok (.ok (s.coord.liveKeys s.now Key.limitCacheStart).length),
        { s with coord := s.coord.dropAll (s.coord.liveKeys s.now Key.limitCacheStart) }) := by
  refine run_onCoord (r := .ok (s.coord.liveKeys s.now Key.limitCacheStart).length) ?_
  cases hpattern : s.coord.patternDelete with
  | true =>
    have hbulk : s.coord.perform s.now (.deletePattern Key.limitCachePattern) = _ :=
      CoordStore.perform_deletePattern_star havailable hpattern (by decide)
    rw [run_attempt _ hbulk]
    rfl
  | false =>
    -- Nothing has changed when the keys are listed, nor when the first of them is deleted.
    have hrefused : s.coord.perform s.now (.deletePattern Key.limitCachePattern) = _ :=
      (CoordStore.Refuses.unsupported _ havailable hpattern).perform
    have hlisted : s.coord.perform s.now (.scan Key.limitCacheStart) = _ :=
      CoordStore.perform_scan_eq havailable
    have hlive : ∀ key ∈ s.coord.liveKeys s.now Key.limitCacheStart,
        (s.coord.live? s.now key).isSome := fun key hkey => (CoordStore.mem_liveKeys.mp hkey).1
    have hdeleted := run_deleteKeys (n := 0) havailable CoordStore.nodup_liveKeys hlive
    rw [run_attempt _ hrefused]
    refine (run_call _ hlisted).trans (hdeleted.trans ?_)
    rw [Nat.zero_add]

/-- The same state, where the store can delete by pattern or cannot. -/
def withPatternDelete (s : Shared) (patternDelete : Bool) : Shared :=
  { s with coord := { s.coord with patternDelete } }

/-- The switch for deletion by pattern changes nothing but whether there is any. -/
theorem clearing_withPatternDelete (patternDelete : Bool) :
    (s.withPatternDelete patternDelete).clearing =
      if s.coord.available then
        (.ok (.ok (s.coord.liveKeys s.now Key.limitCacheStart).length),
          ({ s with coord := s.coord.dropAll (s.coord.liveKeys s.now Key.limitCacheStart) } :
            Shared).withPatternDelete patternDelete)
      else
        (.ok (.error (.coordination (.unavailable "connection refused"))),
          s.withPatternDelete patternDelete) := by
  by_cases havailable : s.coord.available = true
  · rw [if_pos havailable, clearing_eq (s := s.withPatternDelete patternDelete) havailable]
    simp only [withPatternDelete, CoordStore.dropAll_patternDelete]
    rfl
  · rw [if_neg havailable]
    exact clearing_unreachable (Bool.eq_false_iff.mpr havailable)

/-- Whatever is stored, to drop all cached limits by a pattern and to list their keys and delete
    them one by one give back the same and leave the same entries. A store that can be reached
    has then lost the live keys with the start of a cached limit, each of which was counted
    once, and nothing else; one that cannot be reached fails both ways and keeps everything. -/
theorem clearings_agree (s : Shared) :
    (s.withPatternDelete false).clearing.1 = (s.withPatternDelete true).clearing.1 ∧
      (s.withPatternDelete false).clearing.2 =
        (s.withPatternDelete true).clearing.2.withPatternDelete false ∧
      ∃ keys : List String, keys.Nodup ∧
        (∀ key, key ∈ keys ↔ (s.coord.live? s.now key).isSome ∧
          CoordStore.startsWith Key.limitCacheStart key = true) ∧
        if s.coord.available then
          (s.withPatternDelete true).clearing.1 = .ok (.ok keys.length) ∧
            ∃ coord : CoordStore,
              (s.withPatternDelete true).clearing.2 = { s with coord } ∧
              coord.available = true ∧ coord.patternDelete = true ∧
              ∀ key, coord.entries[key]? = if key ∈ keys then none else s.coord.entries[key]?
        else
          (s.withPatternDelete true).clearing =
            (.ok (.error (.coordination (.unavailable "connection refused"))),
              s.withPatternDelete true) := by
  have hbulk := clearing_withPatternDelete (s := s) true
  have hlisted : (s.withPatternDelete false).clearing =
      ((s.withPatternDelete true).clearing.1,
        (s.withPatternDelete true).clearing.2.withPatternDelete false) := by
    rw [hbulk, clearing_withPatternDelete]
    split <;> rfl
  refine ⟨by rw [hlisted], by rw [hlisted], s.coord.liveKeys s.now Key.limitCacheStart,
    CoordStore.nodup_liveKeys, fun key => CoordStore.mem_liveKeys, ?_⟩
  rw [hbulk]
  by_cases havailable : s.coord.available = true
  · rw [if_pos havailable, if_pos havailable]
    refine ⟨rfl, _, rfl, ?_, rfl, fun key => CoordStore.entries_dropAll⟩
    rw [CoordStore.dropAll_eq]
    exact havailable
  · rw [if_neg havailable, if_neg havailable]

end Shared

end ExecutionControl
