import ExecutionControl.Coordination.Call
import Mathlib.Data.List.Basic

/-! # Keys in order

    In the order of keys, those that start with a text stand together, and none of them
    before the text itself. So a scan that begins at a text and ends at the first key that
    does not start with it has seen all keys that do (`scan_eq`).
-/

namespace ExecutionControl.CoordStore

/-! ### Texts that start with another -/

/-- What starts with a text does not come before it. -/
theorem not_lt_of_startsWith {start key : String} (h : startsWith start key = true) :
    ¬ key < start := by
  obtain ⟨rest, hrest⟩ := List.isPrefixOf_iff_prefix.mp h
  rw [String.lt_iff, ← hrest]
  generalize start.toList = chars
  intro hlt
  induction chars with
  | nil => exact List.not_lt_nil _ hlt
  | cons c chars ih =>
    rcases List.cons_lt_cons_iff.mp hlt with hc | ⟨-, hlt⟩
    · exact Char.lt_irrefl c hc
    · exact ih hlt

/-- After a list of characters that no longer starts with another one, none does. -/
theorem not_prefix_of_lt {start key later : List Char} (hkey : ¬ key < start)
    (hstart : ¬ start <+: key) (hlater : key < later) : ¬ start <+: later := by
  induction start generalizing key later with
  | nil => exact absurd (List.nil_prefix) hstart
  | cons c start ih =>
    rintro ⟨rest, rfl⟩
    cases key with
    | nil => exact hkey (List.nil_lt_cons c start)
    | cons d key =>
      rw [List.cons_lt_cons_iff, not_or, not_and] at hkey
      rcases List.cons_lt_cons_iff.mp hlater with hd | ⟨rfl, htail⟩
      · exact hkey.1 hd
      · -- The first characters agree, and the rest is as it was.
        refine ih (hkey.2 rfl) (fun hprefix => hstart ?_) htail ⟨rest, rfl⟩
        exact (List.prefix_cons_inj d).mpr hprefix

/-- Keys in ascending order, with what lies under them. -/
def Ascending {α : Type} (l : List (String × α)) : Prop := l.Pairwise fun p q => p.1 < q.1

theorem ascending_toList (entries : Std.ExtTreeMap String Entry) : Ascending entries.toList := by
  refine Std.ExtTreeMap.ordered_keys_toList.imp ?_
  intro p q h
  exact compareOfLessAndEq_eq_lt.mp h

variable {α : Type} {l : List (String × α)} {start : String}

/-- From a text on, the keys that start with it come first. -/
theorem takeWhile_startsWith (h : Ascending l) (hfrom : ∀ p ∈ l, ¬ p.1 < start) :
    l.takeWhile (fun p => startsWith start p.1) = l.filter fun p => startsWith start p.1 := by
  induction l with
  | nil => rfl
  | cons p l ih =>
    obtain ⟨hp, hl⟩ := List.pairwise_cons.mp h
    by_cases hstarts : startsWith start p.1 = true
    · simp only [List.takeWhile_cons, List.filter_cons, hstarts, if_true]
      rw [ih hl fun q hq => hfrom q (List.mem_cons_of_mem p hq)]
    · simp only [List.takeWhile_cons, List.filter_cons, hstarts, Bool.false_eq_true, if_false]
      rw [eq_comm, List.filter_eq_nil_iff]
      intro q hq hstarts'
      have hprefix : start.toList <+: q.1.toList := List.isPrefixOf_iff_prefix.mp hstarts'
      refine not_prefix_of_lt ?_ ?_ (String.lt_iff.mp (hp q hq)) hprefix
      · exact fun hlt => hfrom p List.mem_cons_self (String.lt_iff.mpr hlt)
      · exact fun hprefix => hstarts (List.isPrefixOf_iff_prefix.mpr hprefix)

/-- A run of keys that starts at a text and ends where keys no longer start with it. -/
theorem takeWhile_dropWhile_startsWith (h : Ascending l) :
    (l.dropWhile fun p => p.1 < start).takeWhile (fun p => startsWith start p.1) =
      l.filter fun p => startsWith start p.1 := by
  induction l with
  | nil => rfl
  | cons p l ih =>
    obtain ⟨hp, hl⟩ := List.pairwise_cons.mp h
    by_cases hbefore : p.1 < start
    · have hstarts : ¬ startsWith start p.1 = true := fun h => not_lt_of_startsWith h hbefore
      simp only [List.dropWhile_cons, List.filter_cons, hbefore, hstarts, decide_true, if_true,
        Bool.false_eq_true, if_false]
      exact ih hl
    · rw [List.dropWhile_cons_of_neg (by simpa using hbefore)]
      refine takeWhile_startsWith h fun q hq => ?_
      rcases List.mem_cons.mp hq with rfl | hq
      · exact hbefore
      · exact fun hlt => hbefore (String.lt_trans (hp q hq) hlt)

/-! ### Scans -/

variable {s : CoordStore} {now : Moment} {key : String}

/-- The live keys that start with a text, in ascending order. -/
def liveKeys (s : CoordStore) (now : Moment) (start : String) : List String :=
  (s.entries.filter fun _ e => e.isLive now).keys.filter (startsWith start)

theorem liveKeys_eq :
    s.liveKeys now start =
      ((s.entries.toList.filter fun p => startsWith start p.1).filter
        fun p => p.2.isLive now).map (·.1) := by
  unfold liveKeys
  rw [← Std.ExtTreeMap.map_fst_toList_eq_keys, Std.ExtTreeMap.toList_filter, List.filter_map,
    List.filter_filter, List.filter_filter]
  congr 1
  refine List.filter_congr fun p _ => ?_
  exact Bool.and_comm _ _

/-- A scan gives all live keys that start with a text, in ascending order. -/
theorem scan_eq (s : CoordStore) (now : Moment) (start : String) :
    s.scan now start = s.whenAvailable fun s =>
      (.ok ((s.entries.filter fun _ e => e.isLive now).keys.filter (startsWith start)), s) := by
  have hkeys : (((s.entries.toList.dropWhile fun p => p.1 < start).takeWhile
      fun p => startsWith start p.1).filter fun p => p.2.isLive now).map (·.1) =
      s.liveKeys now start := by
    rw [takeWhile_dropWhile_startsWith (ascending_toList s.entries), liveKeys_eq]
  simp only [scan, whenAvailable, hkeys, liveKeys]

theorem mem_liveKeys :
    key ∈ s.liveKeys now start ↔ (s.live? now key).isSome ∧ startsWith start key = true := by
  unfold liveKeys live?
  rw [List.mem_filter, Std.ExtTreeMap.mem_keys, Std.ExtTreeMap.mem_iff_isSome_getElem?,
    Std.ExtTreeMap.getElem?_filter']

theorem nodup_liveKeys : (s.liveKeys now start).Nodup := by
  have hkeys : (s.entries.filter fun _ e => e.isLive now).keys.Nodup := by
    refine Std.ExtTreeMap.distinct_keys.imp ?_
    rintro key _ hne rfl
    exact hne Std.ReflCmp.compare_self
  exact hkeys.filter _

/-- As many entries are live under keys that start with a text as there are such keys. -/
theorem length_liveKeys :
    (s.liveKeys now start).length =
      (s.entries.filter fun key e => e.isLive now && startsWith start key).size := by
  rw [liveKeys_eq, List.length_map, List.filter_filter, ← Std.ExtTreeMap.length_toList,
    Std.ExtTreeMap.toList_filter]

theorem perform_scan_eq (havailable : s.available = true) :
    s.perform now (.scan start) = .ok (.ok (s.liveKeys now start), s) := by
  simp only [perform, scan_eq, whenAvailable, havailable, if_true, liveKeys]

end ExecutionControl.CoordStore
