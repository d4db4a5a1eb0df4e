import ExecutionControl.Proofs.Admission.Cutoffs
import ExecutionControl.Proofs.HashChanges
import ExecutionControl.Proofs.KeyOrder
import ExecutionControl.Proofs.Sweeping.Counts

/-! # Sweeps are exact

    A sweep takes stale slots out of the sets of all organisations and of the whole system,
    whatever else lies under their keys and whichever of its purges fail. Each set is purged
    once: before that it is `Untouched`, after it it is `Purged`, and a purge is `Confined`
    to its key. `Sweeping` says this of all keys at once between two purges, so that
    `Sweeping.sweepSets` follows the sets that were found and `sweepAllAt_exact` the whole
    sweep.

    Time passes while a sweep runs. A set whose deadline comes meanwhile is gone, purged or
    not; so what a purge leaves is said of the times after the sweep.
-/

namespace ExecutionControl

/-! ### What a purge leaves -/

/-- What is left of an entry without the members whose score is at or below a cutoff. A set
    that loses all of its members goes. -/
def Entry.above (cutoff : Float) (e : Entry) : Option Entry :=
  match e.datum with
  | .sortedSet m =>
    let kept := m.filter fun _ score => !decide (score ≤ cutoff)
    if kept.isEmpty then none else some { e with datum := .sortedSet kept }
  | _ => some e

/-- Whether a key is one of the slots of an organisation. -/
def Key.namesOrg (key : String) : Bool := (Key.orgOfSlots? key).isSome

/-- The scores of the members of a set. -/
def Datum.scores : Datum → List Float
  | .sortedSet m => m.toList.map Prod.snd
  | _ => []

namespace CoordStore

/-- The scores under a key are numbers. -/
def ScoredAt (s : CoordStore) (key : String) : Prop :=
  ∀ e, s.entries[key]? = some e → ∀ score ∈ e.datum.scores, score.isNaN = false

/-- The scores of all slots are numbers. -/
def Scored (s : CoordStore) : Prop := ∀ key, Key.IsSlots key → s.ScoredAt key

/-- The keys of organisations under which something is. -/
def orgKeys (s : CoordStore) (now : Moment) : List String :=
  (s.entries.filter fun _ e => e.isLive now).keys.filter Key.namesOrg

theorem ScoredAt.congr {s s' : CoordStore} {key : String} (h : s.ScoredAt key)
    (hsame : s'.entries[key]? = s.entries[key]?) : s'.ScoredAt key := by
  intro e he
  rw [hsame] at he
  exact h e he

end CoordStore

namespace Admission

variable {a : Admission} {now : Timestamp} {F : Faults} {key k : String}

theorem keptScores_eq {m : Members}
    (h : ∀ score ∈ (Datum.sortedSet m).scores, score.isNaN = false) :
    CoordStore.keptScores lowestScore (a.cutoff now) m =
      m.filter fun _ score => !decide (score ≤ a.cutoff now) := by
  ext1 member
  rw [CoordStore.keptScores, Std.ExtTreeMap.getElem?_filter', Std.ExtTreeMap.getElem?_filter']
  cases hmember : m[member]? with
  | none => rfl
  | some score =>
    have hscore : score ∈ (Datum.sortedSet m).scores :=
      List.mem_map.mpr ⟨(member, score),
        Std.ExtTreeMap.mem_toList_iff_getElem?_eq_some.mpr hmember, rfl⟩
    have hiff : (score < lowestScore ∨ score > a.cutoff now) ↔ ¬ score ≤ a.cutoff now :=
      outside_iff (h score hscore)
    simp only [Option.filter_some]
    congr 1
    rw [Bool.eq_iff_iff]
    simpa using hiff

section

variable {s s' : CoordStore} {t later : Moment} {n : Nat}

/-- A purge that does not fail leaves what is above the cutoff. -/
theorem live?_of_purge (hscored : s.ScoredAt key)
    (h : s.perform t (.removeScores key lowestScore (a.cutoff now)) = .ok (.ok n, s'))
    (hlater : t ≤ later) :
    s'.live? later key = (s.live? later key).bind (Entry.above (a.cutoff now)) := by
  obtain ⟨m, hm, -, rfl⟩ := CoordStore.perform_removeScores_ok h
  simp only [CoordStore.members, CoordStore.datum?] at hm
  cases hlive : s.live? t key with
  | none =>
    rw [hlive] at hm
    cases hm
    rw [CoordStore.live?_eq_none_of_later hlater hlive]
    exact CoordStore.live?_of_absent CoordStore.entries_drop_self
  | some e =>
    obtain ⟨hentry, -⟩ := CoordStore.live?_eq_some.mp hlive
    obtain ⟨datum, deadline⟩ := e
    rw [hlive] at hm
    cases datum with
    | text _ | hash _ => cases hm
    | sortedSet m' =>
      cases hm
      have hdeadline : s.deadline? t key = deadline := by simp [CoordStore.deadline?, hlive]
      rw [keptScores_eq (hscored _ hentry), CoordStore.live?_of_entry hentry]
      have habove : Entry.above (a.cutoff now) ⟨.sortedSet m, deadline⟩ =
          if (m.filter fun _ score => !decide (score ≤ a.cutoff now)).isEmpty then none
          else some ⟨.sortedSet (m.filter fun _ score => !decide (score ≤ a.cutoff now)),
            deadline⟩ := rfl
      unfold CoordStore.putMembers
      -- Whether the set is still there later does not depend on what is left of it.
      by_cases hthere : Entry.isLive ⟨.sortedSet m, deadline⟩ later
      · rw [if_pos hthere, Option.bind_some, habove]
        split
        · exact CoordStore.live?_of_absent CoordStore.entries_drop_self
        · rw [CoordStore.live?_of_entry CoordStore.entries_put_self, hdeadline]
          exact if_pos hthere
      · rw [if_neg hthere, Option.bind_none]
        split
        · exact CoordStore.live?_of_absent CoordStore.entries_drop_self
        · rw [CoordStore.live?_of_entry CoordStore.entries_put_self, hdeadline]
          exact if_neg hthere

end

/-! ### The course of a sweep -/

/-- The purge of a set failed. -/
def PurgeFailed (a : Admission) (now : Timestamp) (key : String) (log : Log) : Prop :=
  ∃ e, log.Has (.coord (.removeScores key lowestScore (a.cutoff now))) (.error e)

/-- A key about which nothing was done. -/
structure Untouched (a : Admission) (now : Timestamp) (s : CoordStore) (key : String)
    (p : Point) : Prop where
  entry : p.shared.coord.entries[key]? = s.entries[key]?
  notFailed : ¬ a.PurgeFailed now key p.log

/-- A set of slots that was purged, or that was left as it is because the purge failed or
    something else is under its key. -/
structure Purged (a : Admission) (now : Timestamp) (s : CoordStore) (key : String)
    (p : Point) : Prop where
  reclaimed : ¬ a.PurgeFailed now key p.log → ∀ t, p.shared.now ≤ t →
    p.shared.coord.live? t key = (s.live? t key).bind (Entry.above (a.cutoff now))
  spared : (a.PurgeFailed now key p.log ∨
      ∃ e, s.live? p.shared.now key = some e ∧ ∀ m, e.datum ≠ .sortedSet m) →
    p.shared.coord.entries[key]? = s.entries[key]?

/-- Nothing was done from one point to another about keys that were not touched. -/
structure Confined (a : Admission) (now : Timestamp) (touched : String → Prop) (p p' : Point) :
    Prop where
  time : p.shared.now ≤ p'.shared.now
  entry : ∀ k, ¬ touched k → p'.shared.coord.entries[k]? = p.shared.coord.entries[k]?
  failed : ∀ k, ¬ touched k → (a.PurgeFailed now k p'.log ↔ a.PurgeFailed now k p.log)

variable {s : CoordStore} {p p' : Point} {touched : String → Prop}

theorem untouched_start {s : Shared} : a.Untouched now s.coord key ⟨s, []⟩ := by
  refine ⟨rfl, ?_⟩
  rintro ⟨_, _, hmem⟩
  cases hmem

theorem Untouched.after (h : a.Untouched now s key p) (hp : a.Confined now touched p p')
    (hkey : ¬ touched key) : a.Untouched now s key p' :=
  ⟨(hp.entry key hkey).trans h.entry, fun hfailed => h.notFailed ((hp.failed key hkey).mp hfailed)⟩

theorem Purged.after (h : a.Purged now s key p) (hp : a.Confined now touched p p')
    (hkey : ¬ touched key) : a.Purged now s key p' where
  reclaimed hfailed t ht := by
    rw [CoordStore.live?_congr (hp.entry key hkey)]
    exact h.reclaimed (fun hfailed' => hfailed ((hp.failed key hkey).mpr hfailed')) t
      (Nat.le_trans hp.time ht)
  spared hspared := by
    refine (hp.entry key hkey).trans (h.spared ?_)
    rcases hspared with hfailed | ⟨e, he, hdatum⟩
    · exact .inl ((hp.failed key hkey).mp hfailed)
    · exact .inr ⟨e, CoordStore.live?_eq_of_later hp.time he, hdatum⟩

/-- A request that leaves other entries as they are, and is no purge of other keys. -/
theorem confined_asked {r : Request} {reply : r.Reply} {s' : Shared}
    (hnow : p.shared.now ≤ s'.now)
    (hr : ∀ k, ¬ touched k → r ≠ .coord (.removeScores k lowestScore (a.cutoff now)))
    (hentry : ∀ k, ¬ touched k → s'.coord.entries[k]? = p.shared.coord.entries[k]?) :
    a.Confined now touched p (p.asked s' r reply) where
  time := hnow
  entry := hentry
  failed k hk := by
    constructor
    · rintro ⟨e, t, hmem⟩
      rcases List.mem_cons.mp hmem with heq | hmem
      · cases heq
        exact absurd rfl (hr k hk)
      · exact ⟨e, t, hmem⟩
    · rintro ⟨e, t, hmem⟩
      exact ⟨e, t, List.mem_cons_of_mem _ hmem⟩

/-- A purge does what it has to do about its set and nothing about other keys. -/
theorem Untouched.removeScores {Q : Except CoordError Nat → Point → Prop}
    (h : a.Untouched now s key p) (hscored : s.ScoredAt key)
    (hQ : ∀ reply p', (∀ e, reply = .error e →
        p'.log.Has (.coord (.removeScores key lowestScore (a.cutoff now))) (.error e)) →
      a.Purged now s key p' → a.Confined now (· = key) p p' → Q reply p') :
    serving F (fun _ _ => False) (.coord (.removeScores key lowestScore (a.cutoff now))) Q p := by
  have hother : ∀ k, ¬ k = key → Request.coord (.removeScores key lowestScore (a.cutoff now)) ≠
      .coord (.removeScores k lowestScore (a.cutoff now)) := by
    intro k hk heq
    cases heq
    exact hk rfl
  have hfailed : ∀ e (s' : Shared), p.shared.now ≤ s'.now → s'.coord = p.shared.coord →
      Q (.error e) (p.asked s' (.coord (.removeScores key lowestScore (a.cutoff now)))
        (.error e)) := by
    intro e s' hnow hcoord
    refine hQ _ _ (fun e' he' => ?_) ⟨fun hnot => ?_, fun _ => ?_⟩
      (confined_asked hnow hother fun k _ => by rw [hcoord])
    · cases he'
      exact ⟨_, List.mem_cons_self⟩
    · exact absurd ⟨e, _, List.mem_cons_self⟩ hnot
    · show s'.coord.entries[key]? = _
      rw [hcoord]
      exact h.entry
  refine serving_coord (fun reply s' hnow hp => ?_)
    (fun e s' hnow hcoord _ => hfailed e s' hnow hcoord) fun o s' _ _ hp => ?_
  · cases reply with
    | error e =>
      rcases CoordStore.perform_removeScores hp with ⟨-, hcoord⟩ | ⟨⟨_, hok⟩, -⟩
      · exact hfailed e s' hnow hcoord
      · cases hok
    | ok n =>
      refine hQ _ _ (fun e he => nomatch he) ⟨fun _ t ht => ?_, fun hspared => ?_⟩
        (confined_asked hnow hother fun k hk =>
          CoordStore.perform_entries_of_ne hp hk fun _ => by simp)
      · rw [← CoordStore.live?_congr h.entry]
        exact live?_of_purge (hscored.congr h.entry) hp ht
      · rcases hspared with ⟨e, t, hmem⟩ | ⟨e, he, hdatum⟩
        · rcases List.mem_cons.mp hmem with heq | hmem
          · cases heq
          · exact absurd ⟨e, t, hmem⟩ h.notFailed
        · -- What is no set is not purged with success.
          obtain ⟨m, hm, -⟩ := CoordStore.perform_removeScores_ok hp
          have hlive : p.shared.coord.live? s'.now key = some e := by
            rw [CoordStore.live?_congr h.entry]
            exact he
          exact absurd (CoordStore.datum_of_members hm hlive) (hdatum m)
  · simp [CoordStore.perform] at hp

theorem Untouched.purge {Q : Nat → Point → Prop} {E : CoordError → Point → Prop}
    (h : a.Untouched now s key p) (hscored : s.ScoredAt key)
    (hQ : ∀ n p', a.Purged now s key p' → a.Confined now (· = key) p p' → Q n p')
    (hE : ∀ e p', p'.log.Has (.coord (.removeScores key lowestScore (a.cutoff now))) (.error e) →
      a.Purged now s key p' → a.Confined now (· = key) p p' → E e p') :
    Coord.ensures (serving F fun _ _ => False) Q E (a.purge key now) p := by
  unfold Admission.purge
  refine h.removeScores hscored fun reply p' herror hpurged hconfined => ?_
  cases reply with
  | ok n => exact hQ n p' hpurged hconfined
  | error e => exact hE e p' (herror e rfl) hpurged hconfined

/-! ### Whole sweeps -/

/-- A sweep that found the sets `all` when it began, and has the sets `todo` before it. -/
structure Sweeping (a : Admission) (now : Timestamp) (s : CoordStore) (began : Moment)
    (all todo : List String) (p : Point) : Prop where
  time : began ≤ p.shared.now
  distinct : todo.Nodup
  found : todo ⊆ all
  untouched : ∀ key, key ∉ all ∨ key ∈ todo → a.Untouched now s key p
  purged : ∀ key ∈ all, key ∉ todo → a.Purged now s key p

variable {began : Moment} {all todo : List String}

/-- The next set is purged. -/
theorem Sweeping.next (h : a.Sweeping now s began all (key :: todo) p)
    (hpurged : a.Purged now s key p') (hp : a.Confined now (· = key) p p') :
    a.Sweeping now s began all todo p' where
  time := Nat.le_trans h.time hp.time
  distinct := (List.nodup_cons.mp h.distinct).2
  found := List.subset_of_cons_subset h.found
  untouched k hk := by
    have hne : k ≠ key := by
      rintro rfl
      rcases hk with hnew | hlater
      · exact hnew (h.found List.mem_cons_self)
      · exact (List.nodup_cons.mp h.distinct).1 hlater
    exact (h.untouched k (hk.imp_right (List.mem_cons_of_mem _))).after hp hne
  purged k hk hdone := by
    by_cases hkey : k = key
    · rw [hkey]
      exact hpurged
    · have hnot : k ∉ key :: todo := fun hmem => (List.mem_cons.mp hmem).elim hkey hdone
      exact (h.purged k hk hnot).after hp hkey

theorem Sweeping.after (h : a.Sweeping now s began all todo p)
    (hp : a.Confined now (fun _ => False) p p') : a.Sweeping now s began all todo p' where
  time := Nat.le_trans h.time hp.time
  distinct := h.distinct
  found := h.found
  untouched k hk := (h.untouched k hk).after hp id
  purged k hk hdone := (h.purged k hk hdone).after hp id

/-- A sweep purges all sets that it found, unless the store cannot be reached. -/
theorem Sweeping.sweepSets {keys : List String} {report : SweepReport}
    {Q : SweepReport → Point → Prop} {E : CoordError → Point → Prop}
    (h : a.Sweeping now s began all (keys.filter Key.namesOrg) p) (hscored : s.Scored)
    (hQ : ∀ (report' : SweepReport) p',
      report'.orgSets = report.orgSets + (keys.filter Key.namesOrg).length →
      a.Sweeping now s began all [] p' → Q report' p')
    (hE : ∀ key e p', e.isUnavailable = true →
      p'.log.Has (.coord (.removeScores key lowestScore (a.cutoff now))) (.error e) → E e p') :
    Coord.ensures (serving F fun _ _ => False) Q E (a.sweepSets now keys report) p := by
  induction keys generalizing report p with
  | nil => exact hQ report p rfl h
  | cons key rest ih =>
    unfold Admission.sweepSets
    cases horg : Key.orgOfSlots? key with
    | none =>
      rw [List.filter_cons_of_neg (by simp [Key.namesOrg, horg])] at h hQ
      exact ih h hQ
    | some o =>
      have hkey : Key.IsSlots key := .inr ⟨o, Key.eq_orgSlots_of_orgOfSlots? horg⟩
      rw [List.filter_cons_of_pos (by simp [Key.namesOrg, horg])] at h hQ
      have hcount : ∀ (report' : SweepReport) n,
          report'.orgSets = report.orgSets + 1 + n →
            report'.orgSets = report.orgSets + (n + 1) := by
        intro report' n heq
        omega
      simp only [Option.isNone_some, Bool.false_eq_true, if_false, Coord.ensures_bind,
        Coord.ensures_attempt]
      refine (h.untouched key (.inr List.mem_cons_self)).purge (hscored key hkey)
        (fun n p₁ hpurged hp => ?_) fun e p₁ hlogged hpurged hp => ?_
      · exact ih (h.next hpurged hp) fun report' p' heq => hQ report' p' (hcount report' _ heq)
      -- A purge that failed is passed over, unless the store is out of reach.
      · show Coord.ensures _ _ _ (if e.isUnavailable then _ else _) _
        split
        · rename_i hunavailable
          exact hE key e p₁ hunavailable hlogged
        · simp only [Coord.ensures_bind, Coord.ensures_lift, Program.ensures_report]
          refine serving_other (by simp) fun reply s' hnow hcoord => ?_
          have hreported : a.Confined now (fun _ => False) p₁
              (p₁.asked s' (.report (.slotSetSkipped key e)) reply) :=
            confined_asked hnow (by simp) fun k _ => by rw [hcoord]
          exact ih ((h.next hpurged hp).after hreported) fun report' p' heq =>
            hQ report' p' (hcount report' _ heq)

/-- What a sweep of all sets has done when it is over: the sets of all organisations and of
    the whole system are purged, no other key is changed, and the report counts the sets that
    were found when the sweep began and the slots that were removed. -/
structure SweptExactly (a : Admission) (now : Timestamp) (s : Shared) (p : Point)
    (report : SweepReport) (removed : Nat) : Prop where
  orgs : ∀ key, Key.namesOrg key = true → a.Purged now s.coord key p
  whole : a.Purged now s.coord Key.globalSlots p
  others : ∀ key, Key.namesOrg key = false → key ≠ Key.globalSlots →
    p.shared.coord.entries[key]? = s.coord.entries[key]?
  orgSets : ∃ began, s.now ≤ began ∧ began ≤ p.shared.now ∧
    report.orgSets = (s.coord.orgKeys began).length
  reclaimed : report.reclaimed = removed

theorem namesOrg_globalSlots : Key.namesOrg Key.globalSlots = false := by
  cases h : Key.orgOfSlots? Key.globalSlots with
  | none => simp [Key.namesOrg, h]
  | some o => exact absurd (Key.eq_orgSlots_of_orgOfSlots? h).symm (Key.orgSlots_ne_globalSlots o)

theorem mem_orgKeys {s : CoordStore} {t : Moment} :
    key ∈ s.orgKeys t ↔ (s.live? t key).isSome ∧ Key.namesOrg key = true := by
  rw [CoordStore.orgKeys, List.mem_filter, Std.ExtTreeMap.mem_keys,
    Std.ExtTreeMap.mem_iff_isSome_getElem?, Std.ExtTreeMap.getElem?_filter']
  rfl

/-- A scan for sets finds those of all organisations. -/
theorem filter_namesOrg_of_scan {s s' : CoordStore} {t : Moment} {keys : List String}
    (h : s.perform t (.scan Key.orgSlotsStart) = .ok (.ok keys, s')) :
    keys.filter Key.namesOrg = s.orgKeys t := by
  simp only [CoordStore.perform, CoordStore.scan_eq, CoordStore.whenAvailable,
    CoordStore.unreachable] at h
  split at h
  · cases h
    rw [CoordStore.orgKeys, List.filter_filter]
    refine List.filter_congr fun key _ => ?_
    -- A key that names an organisation starts as all of them do.
    by_cases hstarts : CoordStore.startsWith Key.orgSlotsStart key = true
    · rw [hstarts, Bool.and_true]
    · have hnot : Key.namesOrg key = false := by
        simp [Key.namesOrg, Key.orgOfSlots?, hstarts]
      rw [hnot, Bool.false_and]
  · cases h

theorem nodup_orgKeys (s : CoordStore) (t : Moment) : (s.orgKeys t).Nodup :=
  Std.ExtTreeMap.nodup_keys.filter _

/-- A set that was not there when the sweep began is not there later. -/
theorem Untouched.purged_of_absent (h : a.Untouched now s key p) (hbegan : began ≤ p.shared.now)
    (habsent : s.live? began key = none) : a.Purged now s key p where
  reclaimed _ t ht := by
    rw [CoordStore.live?_congr h.entry,
      CoordStore.live?_eq_none_of_later (Nat.le_trans hbegan ht) habsent]
    rfl
  spared _ := h.entry

/-- Why a sweep fails: the scan or the purge of the whole system did, or the store could not
    be reached. -/
def SweepFailed (a : Admission) (now : Timestamp) (log : Log) : Prop :=
  (∃ e, log.Has (.coord (.scan Key.orgSlotsStart)) (.error e)) ∨
    a.PurgeFailed now Key.globalSlots log ∨
    ∃ key e, e.isUnavailable = true ∧
      log.Has (.coord (.removeScores key lowestScore (a.cutoff now))) (.error e)

/-- A scan finds the keys that are there, or it fails; it changes nothing. -/
theorem serving_scan {start : String} {Q : Except CoordError (List String) → Point → Prop}
    (hfound : ∀ keys s', p.shared.now ≤ s'.now →
      p.shared.coord.perform s'.now (.scan start) = .ok (.ok keys, s'.coord) →
      Q (.ok keys) (p.asked s' (.coord (.scan start)) (.ok keys)))
    (hfailed : ∀ e s', Q (.error e) (p.asked s' (.coord (.scan start)) (.error e))) :
    serving F (fun _ _ => False) (.coord (.scan start)) Q p := by
  refine serving_coord (fun reply s' hnow hp => ?_) (fun e s' _ _ _ => hfailed e s')
    fun o s' _ _ hp => ?_
  · cases reply with
    | ok keys => exact hfound keys s' hnow hp
    | error e => exact hfailed e s'
  · simp [CoordStore.perform] at hp

/-- When the scan is answered nothing is touched, and all sets that were found are to be
    purged. -/
theorem Sweeping.start {s s₁ : Shared} {keys : List String} (hnow : s.now ≤ s₁.now)
    (hp : s.coord.perform s₁.now (.scan Key.orgSlotsStart) = .ok (.ok keys, s₁.coord)) :
    a.Sweeping now s.coord s₁.now (s.coord.orgKeys s₁.now) (keys.filter Key.namesOrg)
      (Point.asked ⟨s, []⟩ s₁ (.coord (.scan Key.orgSlotsStart)) (.ok keys)) := by
  have hcoord : s₁.coord = s.coord := CoordStore.perform_scan hp
  have hbegan : ∀ key, a.Untouched now s.coord key
      (Point.asked ⟨s, []⟩ s₁ (.coord (.scan Key.orgSlotsStart)) (.ok keys)) := by
    intro key
    have hconfined : a.Confined now (fun _ => False) ⟨s, []⟩
        (Point.asked ⟨s, []⟩ s₁ (.coord (.scan Key.orgSlotsStart)) (.ok keys)) :=
      confined_asked hnow (by simp) fun k _ => by rw [hcoord]
    exact untouched_start.after hconfined id
  rw [filter_namesOrg_of_scan hp]
  exact ⟨Nat.le_refl _, nodup_orgKeys _ _, fun _ h => h, fun key _ => hbegan key,
    fun key hmem hnot => absurd hmem hnot⟩

theorem ensures_sweepAllAt {s : Shared} (hscored : s.coord.Scored) :
    Coord.ensures (serving F fun _ _ => False)
      (fun report p => a.SweptExactly now s p report report.reclaimed)
      (fun _ p => a.SweepFailed now p.log) (a.sweepAllAt now) ⟨s, []⟩ := by
  simp only [sweepAllAt, Coord.ensures_bind]
  refine serving_scan (fun keys s₁ hnow hp => ?_) fun e s₁ => .inl ⟨e, _, List.mem_cons_self⟩
  have hkeys : keys.filter Key.namesOrg = s.coord.orgKeys s₁.now := filter_namesOrg_of_scan hp
  have hglobal : Key.globalSlots ∉ s.coord.orgKeys s₁.now := by
    rw [mem_orgKeys, namesOrg_globalSlots]
    simp
  refine (Sweeping.start hnow hp).sweepSets hscored (fun report p₂ hcount h₂ => ?_)
    fun key e p₂ hunavailable hlogged => .inr (.inr ⟨key, e, hunavailable, hlogged⟩)
  refine (h₂.untouched _ (.inl hglobal)).purge (hscored _ Key.isSlots_globalSlots)
    (fun n p₃ hpurged hconfined => ?_) fun e p₃ hlogged _ _ => .inr (.inl ⟨e, hlogged⟩)
  have htime : s₁.now ≤ p₃.shared.now := Nat.le_trans h₂.time hconfined.time
  rw [hkeys] at hcount
  refine ⟨fun key horg => ?_, hpurged, fun key hnot hne => ?_, ⟨s₁.now, hnow, htime, ?_⟩, rfl⟩
  · have hne : ¬ key = Key.globalSlots := by
      rintro rfl
      rw [namesOrg_globalSlots] at horg
      cases horg
    -- A set of an organisation that the scan did not find was not there.
    by_cases hfound : key ∈ s.coord.orgKeys s₁.now
    · exact (h₂.purged key hfound (by simp)).after hconfined hne
    · have habsent : s.coord.live? s₁.now key = none := by
        rw [mem_orgKeys, not_and, Option.isSome_iff_ne_none] at hfound
        exact not_not.mp fun hthere => hfound hthere horg
      exact ((h₂.untouched key (.inl hfound)).after hconfined hne).purged_of_absent htime habsent
  · have hunfound : key ∉ s.coord.orgKeys s₁.now := by
      rw [mem_orgKeys, hnot]
      simp
    exact ((h₂.untouched key (.inl hunfound)).after hconfined hne).entry
  · rw [hcount]
    exact Nat.zero_add _

/-- A sweep of all sets is exact: if neither the scan nor the purge of the whole system fails,
    and no other purge because the store cannot be reached, it ends with a report. Then the sets
    of all organisations whose purge did not fail, and the one of the whole system, have lost
    the slots with a score at or below the cutoff and no others. Sets whose purge failed and
    keys with something else are as they were, and stop the purge of no other set. -/
theorem sweepAllAt_exact (a : Admission) (now : Timestamp) (F : Faults) (s : Shared) (n : Nat)
    (out : Checked (Except CoordError SweepReport)) (p : Point)
    (hscored : s.coord.Scored) (hends : (a.sweepAllAt now).run.EndsLosing F ⟨s, []⟩ n out p)
    (hscan : ∀ e, ¬ p.log.Has (.coord (.scan Key.orgSlotsStart)) (.error e))
    (hwhole : ¬ a.PurgeFailed now Key.globalSlots p.log)
    (hreached : ∀ key e,
      p.log.Has (.coord (.removeScores key lowestScore (a.cutoff now))) (.error e) →
      e.isUnavailable = false) :
    ∃ report, out = .ok (.ok report) ∧ a.SweptExactly now s p report n := by
  obtain ⟨outcome, rfl, hcount⟩ := sweepAllAt_reclaimed hends
  have hensures : (a.sweepAllAt now).run.ensures (serving F fun _ _ => False) _ ⟨s, []⟩ :=
    ensures_sweepAllAt hscored
  have houtcome := (hends.ends.of_ensures hensures).1 outcome rfl
  cases outcome with
  | ok report =>
    refine ⟨report, rfl, ?_⟩
    rw [← hcount report rfl]
    exact houtcome
  | error e =>
    rcases houtcome with ⟨e, he⟩ | hfailed | ⟨key, e, hunavailable, hlogged⟩
    · exact absurd he (hscan e)
    · exact absurd hfailed hwhole
    · rw [hreached key e hlogged] at hunavailable
      cases hunavailable

/-- The calls that failed, by the key they were about. -/
def failures (log : Log) : List (String × CoordError) :=
  log.filterMap fun
    | ⟨_, .coord call, .error e⟩ => some (call.subject, e)
    | _ => none

theorem mem_failures {log : Log} {call : CoordCall} {e : CoordError}
    (h : log.Has (.coord call) (.error e)) : (call.subject, e) ∈ failures log := by
  obtain ⟨t, hmem⟩ := h
  exact List.mem_filterMap.mpr ⟨_, hmem, rfl⟩

/-- Slots of several organisations that were taken at the epoch and a second after it. One of
    the organisations has no name, and one has no set. -/
def mixedSlots : Shared where
  coord := [
    ("", Datum.sortedSet (.ofList [("d", 0.0)])),
    ("a", .sortedSet (.ofList [("e", 0.0), ("f", 1.0)])),
    ("b", .text "no set"),
    ("c", .sortedSet (.ofList [("g", 0.0)]))].foldl
      (fun s x => s.put (Key.orgSlots x.1) ⟨x.2, none⟩)
      (({} : CoordStore).put Key.globalSlots
        ⟨.sortedSet (.ofList [("e", 0.0), ("f", 1.0), ("g", 0.0)]), none⟩)

/-- The purge of one organisation fails. -/
def failsForC : CoordCall → Option CoordError
  | .removeScores key _ _ =>
    if key = Key.orgSlots "c" then some (.contentionExhausted key) else none
  | _ => none

/-- A sweep of these slots six hours after the epoch. -/
def mixedSweep : Checked (Except CoordError SweepReport) × Point :=
  ((withCeilings 1 1).sweepAllAt (.ofMillis 21600000)).run.run (Point.answer failsForC)
    ⟨mixedSlots, []⟩

theorem sweepAllAt_exact_mixed : ∃ report p,
    ((withCeilings 1 1).sweepAllAt (.ofMillis 21600000)).run.EndsLosing .any ⟨mixedSlots, []⟩ 3
      (.ok (.ok report)) p ∧
    (withCeilings 1 1).SweptExactly (.ofMillis 21600000) mixedSlots p report 3 := by
  have hscores : ∀ x ∈ mixedSlots.coord.entries.toList, ∀ score ∈ x.2.datum.scores,
      score.isNaN = false := by decide +kernel
  have hscored : mixedSlots.coord.Scored := fun key _ e he =>
    hscores (key, e) (Std.ExtTreeMap.mem_toList_iff_getElem?_eq_some.mpr he)
  have hlost : Program.losses failsForC
      ((withCeilings 1 1).sweepAllAt (.ofMillis 21600000)).run ⟨mixedSlots, []⟩ = 3 := by
    decide +kernel
  have hends : ((withCeilings 1 1).sweepAllAt (.ofMillis 21600000)).run.EndsLosing .any
      ⟨mixedSlots, []⟩ 3 mixedSweep.1 mixedSweep.2 :=
    Program.endsLosing_run (fun _ _ _ => trivial) hlost
  have hfailures : failures mixedSweep.2.log =
      [(Key.orgSlots "c", .contentionExhausted (Key.orgSlots "c")),
        (Key.orgSlots "b", .wrongType (Key.orgSlots "b"))] := by decide +kernel
  have hcases : ∀ call e, mixedSweep.2.log.Has (.coord call) (.error e) →
      call.subject = Key.orgSlots "c" ∧ e = .contentionExhausted (Key.orgSlots "c") ∨
        call.subject = Key.orgSlots "b" ∧ e = .wrongType (Key.orgSlots "b") := by
    intro call e he
    have hmem := mem_failures he
    rw [hfailures] at hmem
    simpa using hmem
  have hscan : ∀ e, ¬ mixedSweep.2.log.Has (.coord (.scan Key.orgSlotsStart)) (.error e) := by
    intro e he
    rcases hcases _ e he with ⟨hkey, -⟩ | ⟨hkey, -⟩ <;> exact absurd hkey (by decide)
  have hwhole : ¬ (withCeilings 1 1).PurgeFailed (.ofMillis 21600000) Key.globalSlots
      mixedSweep.2.log := by
    rintro ⟨e, he⟩
    rcases hcases _ e he with ⟨hkey, -⟩ | ⟨hkey, -⟩ <;> exact absurd hkey (by decide)
  obtain ⟨report, hout, hswept⟩ := sweepAllAt_exact _ _ _ _ _ _ _ hscored hends hscan hwhole
    fun key e he => by rcases hcases _ e he with ⟨-, rfl⟩ | ⟨-, rfl⟩ <;> rfl
  rw [hout] at hends
  exact ⟨report, _, hends, hswept⟩

end Admission

end ExecutionControl
