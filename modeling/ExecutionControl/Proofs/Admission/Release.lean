import ExecutionControl.Proofs.Admission.Occupancy

/-! # Releases of what is not held

    The slots of the whole system are kept under the ids of executions alone, whichever
    organisation took them. A release for an organisation that holds no slot for an
    execution can therefore give back the slot that another one holds, and does nothing
    beyond that: `release_of_not_held`.

    It rests on `Backed`, which every operation keeps up: whatever has a slot in the whole
    system has one with its organisation, unless that one was stale at some time and was
    reclaimed alone.
-/

namespace ExecutionControl

namespace Admission

/-- Every slot of the whole system is one of an organisation too, with the same score, unless
    it was stale at one of these times. -/
def Backed (a : Admission) (times : List Timestamp) (sets : String → Members) : Prop :=
  ∀ (e : String) (score : Float), (sets Key.globalSlots)[e]? = some score →
    (∃ o, (sets (Key.orgSlots o))[e]? = some score) ∨ ∃ t ∈ times, ¬ score > a.cutoff t

variable {a : Admission} {times : List Timestamp} {sets sets' : String → Members}
  {now : Timestamp} {key o e : String} {op : Operation} {result : op.Result} {log : Log}
  {h : History} {s : Shared}

/-! ### Single changes -/

theorem Backed.start : a.Backed [] fun _ => ∅ := by
  intro e score hmem
  rw [Std.ExtTreeMap.getElem?_empty] at hmem
  cases hmem

/-- More time may have passed. -/
theorem Backed.later (hb : a.Backed times sets) (now : Timestamp) :
    a.Backed (now :: times) sets := by
  intro e score hmem
  rcases hb e score hmem with horg | ⟨t, ht, hstale⟩
  · exact Or.inl horg
  · exact Or.inr ⟨t, List.mem_cons_of_mem now ht, hstale⟩

theorem Backed.reclaim (hb : a.Backed times sets) (hnow : now ∈ times) (key : String) :
    a.Backed times (a.reclaim now key sets) := by
  intro e score hmem
  by_cases hcounts : score > a.cutoff now
  · -- A slot that counts is left wherever it is.
    rcases hb e score (getElem?_reclaim.mp hmem).1 with ⟨o, horg⟩ | hstale
    · exact Or.inl ⟨o, getElem?_reclaim.mpr ⟨horg, fun _ => hcounts⟩⟩
    · exact Or.inr hstale
  · exact Or.inr ⟨now, hnow, hcounts⟩

theorem Backed.reclaimAll {keys : List String} (hb : a.Backed times sets) (hnow : now ∈ times) :
    a.Backed times (keys.foldl (fun m key => a.reclaim now key m) sets) := by
  induction keys generalizing sets with
  | nil => exact hb
  | cons key rest ih => exact ih (hb.reclaim hnow key)

theorem Backed.occupy (hb : a.Backed times sets) (o e : String) (score : Float) :
    a.Backed times (occupy o e score sets) := by
  intro member score' hmem
  rw [getElem?_occupy] at hmem
  by_cases hmember : e = member
  · left
    refine ⟨o, ?_⟩
    rw [if_pos ⟨Or.inr rfl, hmember⟩] at hmem
    rw [getElem?_occupy, if_pos ⟨Or.inl rfl, hmember⟩]
    exact hmem
  · rw [if_neg fun hslot => hmember hslot.2] at hmem
    refine (hb member score' hmem).imp_left fun ⟨o', horg⟩ => ⟨o', ?_⟩
    rw [getElem?_occupy, if_neg fun hslot => hmember hslot.2]
    exact horg

theorem Backed.vacate (hb : a.Backed times sets) (o e : String) :
    a.Backed times (vacate o e sets) := by
  intro member score hmem
  rw [getElem?_vacate] at hmem
  have hmember : e ≠ member := by
    rintro rfl
    rw [if_pos ⟨Or.inr rfl, rfl⟩] at hmem
    cases hmem
  rw [if_neg fun hslot => hmember hslot.2] at hmem
  refine (hb member score hmem).imp_left fun ⟨o', horg⟩ => ⟨o', ?_⟩
  rw [getElem?_vacate, if_neg fun hslot => hmember hslot.2]
  exact horg

/-! ### Operations and runs -/

theorem Backed.reclaimBoth (hb : a.Backed times sets) (hnow : now ∈ times) (o : String) :
    a.Backed times (a.reclaimBoth now o sets) :=
  (hb.reclaim hnow (Key.orgSlots o)).reclaim hnow Key.globalSlots

/-- Every operation keeps the slots of the whole system backed. -/
theorem Backed.effect (hb : a.Backed h.times sets) (heffect : a.Effect log sets sets' op result) :
    a.Backed (History.times (⟨op, result⟩ :: h)) sets' := by
  cases op with
  | tryAdmit c now =>
    obtain ⟨limit, -, -, rfl⟩ := heffect
    have hcounted : a.Backed (now :: h.times) (a.reclaimBoth now c.orgId sets) :=
      (hb.later now).reclaimBoth List.mem_cons_self c.orgId
    cases a.decisionBy c limit (a.reclaimBoth now c.orgId sets) with
    | admitted degraded => exact hcounted.occupy c.orgId c.executionId now.score
    | rejected rejection => exact hcounted
  | release o e =>
    obtain ⟨-, rfl⟩ := heffect
    exact Backed.vacate hb o e
  | usage o now =>
    obtain ⟨limit, -, -, rfl⟩ := heffect
    exact (hb.later now).reclaimBoth List.mem_cons_self o
  | sweepOrg o now =>
    obtain rfl := heffect
    exact (hb.later now).reclaim List.mem_cons_self (Key.orgSlots o)
  | sweepAll now =>
    obtain ⟨keys, -, rfl⟩ := heffect
    exact ((hb.later now).reclaimAll List.mem_cons_self).reclaim List.mem_cons_self _
  | setLimit o n =>
    obtain rfl := heffect
    exact hb
  | deleteLimit o =>
    obtain rfl := heffect
    exact hb

theorem Runs.backed (hruns : a.Runs h s) :
    ∃ sets, s.coord.Healthy sets none ∧ a.Backed h.times sets := by
  induction hruns with
  | start hentries havailable => exact ⟨_, .of_empty hentries havailable, Backed.start⟩
  | next _ hends ih =>
    obtain ⟨sets, hhealthy, hb⟩ := ih
    obtain ⟨sets', hhealthy', heffect⟩ := (hends.of_ensures (effect_program hhealthy)).1 _ rfl
    exact ⟨sets', hhealthy', hb.effect heffect⟩

/-- After a sweep at the latest time every slot of the whole system is one of an
    organisation. -/
theorem Runs.backed_of_swept {report : (Operation.sweepAll now).Result}
    (hruns : a.Runs (⟨.sweepAll now, report⟩ :: h) s)
    (hlatest : ∀ t ∈ h.times, t.exact ≤ now.exact) :
    ∃ sets, s.coord.Healthy sets none ∧
      ∀ e ∈ sets Key.globalSlots, ∃ o, e ∈ sets (Key.orgSlots o) := by
  cases hruns with
  | @next _ s₀ _ _ p hbefore hends =>
    obtain ⟨sets, hhealthy, hb⟩ := hbefore.backed
    obtain ⟨sets', hhealthy', heffect⟩ := (hends.of_ensures (effect_program hhealthy)).1 _ rfl
    refine ⟨sets', hhealthy', fun e he => ?_⟩
    obtain ⟨score, hmem⟩ := Option.isSome_iff_exists.mp
      (Std.ExtTreeMap.mem_iff_isSome_getElem?.mp he)
    rcases hb.effect heffect e score hmem with ⟨o, horg⟩ | ⟨t, ht, hstale⟩
    · exact ⟨o, Std.ExtTreeMap.mem_iff_isSome_getElem?.mpr (by rw [horg]; rfl)⟩
    · -- What the sweep has left counts now, and so it has counted at every time.
      obtain ⟨keys, -, rfl⟩ := heffect
      have hcounts : score > a.cutoff now := (getElem?_reclaim.mp hmem).2 rfl
      refine absurd (cutoff_lt_of_le ?_ hcounts) hstale
      rcases List.mem_cons.mp ht with rfl | ht
      · exact Int.le_refl _
      · exact hlatest t ht

/-! ### Releases -/

theorem members_eq {lock : Option (String × String)} (h : s.coord.Healthy sets lock)
    (hkey : Key.IsSlots key) : s.members key = sets key :=
  CoordStore.members_eq_ok (h.members hkey)

/-- Only keys that are there can have members. -/
theorem not_mem_members_of_keys (h : ∀ key ∈ s.coord.entries.keys, e ∉ s.members key)
    (key : String) : e ∉ s.members key := by
  by_cases hkey : key ∈ s.coord.entries
  · exact h key (Std.ExtTreeMap.mem_keys.mpr hkey)
  · have hempty : s.members key = ∅ := by
      refine CoordStore.slots_of_text none ?_
      rw [CoordStore.datum?, CoordStore.live?_of_absent (Std.ExtTreeMap.getElem?_eq_none hkey)]
      rfl
    rw [hempty]
    exact Std.ExtTreeMap.not_mem_empty

/-- What a release does to each set. -/
theorem vacate_apply (o e key : String) (sets : String → Members) :
    vacate o e sets key =
      if key = Key.orgSlots o ∨ key = Key.globalSlots then (sets key).erase e else sets key := by
  apply Std.ExtTreeMap.ext_getElem?
  intro member
  rw [getElem?_vacate]
  split_ifs <;> simp_all [Std.ExtTreeMap.getElem?_erase]

/-- What is not there is not missed. -/
theorem erase_of_not_mem {m : Members} (h : e ∉ m) : m.erase e = m := by
  apply Std.ExtTreeMap.ext_getElem?
  intro member
  rw [Std.ExtTreeMap.getElem?_erase]
  split_ifs with heq
  · rw [← Std.LawfulEqCmp.eq_of_compare heq, Std.ExtTreeMap.getElem?_eq_none h]
  · rfl

/-- A release for an organisation that holds no slot for an execution, once the stale slots
    are reclaimed, leaves the slots of all organisations as they are, and takes from those
    of the whole system the execution at most. Unless another organisation holds a slot for
    it, nothing at all changes, and the release says so. -/
theorem release_of_not_held (a : Admission) (h : History) (s : Shared) (now : Timestamp)
    (report : (Operation.sweepAll now).Result) (o e : String) (out : Checked Bool) (p : Point)
    (hruns : a.Runs (⟨.sweepAll now, report⟩ :: h) s)
    (hlatest : ∀ t ∈ h.times, t.exact ≤ now.exact)
    (hheld : e ∉ s.members (Key.orgSlots o))
    (hends : (Admission.release o e).Ends .durable ⟨s, []⟩ out p) :
    ∃ held, out = .ok held ∧
      (∀ o', p.shared.members (Key.orgSlots o') = s.members (Key.orgSlots o')) ∧
      p.shared.members Key.globalSlots = (s.members Key.globalSlots).erase e ∧
      ((∀ o', e ∉ s.members (Key.orgSlots o')) →
        held = false ∧ p.shared.members Key.globalSlots = s.members Key.globalSlots) := by
  obtain ⟨sets, hhealthy, hbacked⟩ := hruns.backed_of_swept hlatest
  obtain ⟨hok, herror⟩ := hends.of_ensures (O := fun _ _ => False)
    (effect_release (a := a) (o := o) (e := e) hhealthy)
  rcases out with overflow | held
  · exact (herror overflow rfl).elim
  obtain ⟨sets', hhealthy', hanswer, hsets⟩ := hok held rfl
  subst hsets
  rw [members_eq hhealthy (Key.isSlots_orgSlots o)] at hheld
  have horg : ∀ o', p.shared.members (Key.orgSlots o') = s.members (Key.orgSlots o') := by
    intro o'
    rw [members_eq hhealthy' (Key.isSlots_orgSlots o'),
      members_eq hhealthy (Key.isSlots_orgSlots o'), vacate_apply]
    split_ifs with hkey
    · rcases hkey with hsame | hglobal
      · rw [hsame, erase_of_not_mem hheld]
      · exact absurd hglobal (Key.orgSlots_ne_globalSlots o')
    · rfl
  have hglobal : p.shared.members Key.globalSlots = (s.members Key.globalSlots).erase e := by
    rw [members_eq hhealthy' Key.isSlots_globalSlots, members_eq hhealthy Key.isSlots_globalSlots,
      vacate_apply, if_pos (Or.inr rfl)]
  refine ⟨held, rfl, horg, hglobal, fun hnone => ?_⟩
  -- After the sweep every slot of the whole system is backed by one of an organisation.
  have habsent : e ∉ sets Key.globalSlots := by
    intro he
    obtain ⟨o', ho'⟩ := hbacked e he
    refine hnone o' ?_
    rwa [members_eq hhealthy (Key.isSlots_orgSlots o')]
  refine ⟨?_, ?_⟩
  · rw [hanswer, Bool.or_eq_false_iff, Bool.eq_false_iff, Bool.eq_false_iff, ne_eq, ne_eq,
      ← Std.ExtTreeMap.mem_iff_contains, ← Std.ExtTreeMap.mem_iff_contains]
    exact ⟨hheld, habsent⟩
  · rw [hglobal, members_eq hhealthy Key.isSlots_globalSlots, erase_of_not_mem habsent]

/-- A sweep a second after the first execution was admitted. -/
def sweptAfterFirst : Checked (Except CoordError SweepReport) × Point :=
  ((withCeilings 1 1).sweepAllAt (.ofMillis 1000)).run.run (Point.answer fun _ => none)
    ⟨firstAdmitted.2.shared, []⟩

/-- A release after that. -/
def releasedAfterSweep (o e : String) : Checked Bool × Point :=
  (release o e).run (Point.answer fun _ => none) ⟨sweptAfterFirst.2.shared, []⟩

/-- The first execution and the sweep are a run. -/
theorem runs_sweptAfterFirst : ∃ report, (withCeilings 1 1).Runs
    [⟨.sweepAll (.ofMillis 1000), report⟩,
      ⟨.tryAdmit ⟨"o", "w", "e", "c"⟩ (.ofMillis 0), .ok (.admitted false)⟩]
    sweptAfterFirst.2.shared := by
  have hfirst : firstAdmitted.1.toOption.bind Except.toOption = some (.admitted false) := by
    decide +kernel
  have hswept : sweptAfterFirst.1.toOption.isSome = true := by decide +kernel
  have hends₁ : Program.Ends .durable
      ((withCeilings 1 1).program (.tryAdmit ⟨"o", "w", "e", "c"⟩ (.ofMillis 0))) ⟨{}, []⟩
      firstAdmitted.1 firstAdmitted.2 := Program.ends_run (fun _ _ h => by cases h) _ _
  have hends₂ : Program.Ends .durable
      ((withCeilings 1 1).program (.sweepAll (.ofMillis 1000))) ⟨firstAdmitted.2.shared, []⟩
      sweptAfterFirst.1 sweptAfterFirst.2 := Program.ends_run (fun _ _ h => by cases h) _ _
  generalize sweptAfterFirst = r₂ at hends₂ hswept ⊢
  generalize firstAdmitted = r₁ at hends₁ hends₂ hfirst
  rcases r₁ with ⟨o₁ | e₁ | d₁, p₁⟩
  · cases hfirst
  · cases hfirst
  rcases r₂ with ⟨o₂ | report, p₂⟩
  · cases hswept
  obtain rfl : d₁ = .admitted false := Option.some.inj hfirst
  exact ⟨report, .next (.next (.start rfl rfl) hends₁) hends₂⟩

theorem ends_releasedAfterSweep (o e : String) : (release o e).Ends .durable
    ⟨sweptAfterFirst.2.shared, []⟩ (releasedAfterSweep o e).1 (releasedAfterSweep o e).2 :=
  Program.ends_run (fun _ _ h => by cases h) _ _

/-- What was never admitted. -/
theorem release_of_not_held_unknown :
    (releasedAfterSweep "o" "f").1 = .ok false ∧
      (releasedAfterSweep "o" "f").2.shared.members Key.globalSlots =
        sweptAfterFirst.2.shared.members Key.globalSlots := by
  obtain ⟨report, hruns⟩ := runs_sweptAfterFirst
  have hkeys : ∀ key ∈ sweptAfterFirst.2.shared.coord.entries.keys,
      "f" ∉ sweptAfterFirst.2.shared.members key := by decide +kernel
  have hnone : ∀ o', "f" ∉ sweptAfterFirst.2.shared.members (Key.orgSlots o') :=
    fun o' => not_mem_members_of_keys hkeys (Key.orgSlots o')
  obtain ⟨held, hout, -, -, hunknown⟩ := release_of_not_held _ _ _ _ _ "o" "f" _ _ hruns
    (by decide +kernel) (hnone "o") (ends_releasedAfterSweep "o" "f")
  obtain ⟨rfl, hglobal⟩ := hunknown hnone
  exact ⟨hout, hglobal⟩

/-- An organisation gives back the slot of another one. -/
theorem release_of_not_held_fails_elsewhere :
    ∃ (report : (Operation.sweepAll (.ofMillis 1000)).Result) (s : Shared) (p : Point),
      (withCeilings 1 1).Runs [⟨.sweepAll (.ofMillis 1000), report⟩,
        ⟨.tryAdmit ⟨"o", "w", "e", "c"⟩ (.ofMillis 0), .ok (.admitted false)⟩] s ∧
      "e" ∉ s.members (Key.orgSlots "p") ∧
      (release "p" "e").Ends .durable ⟨s, []⟩ (.ok true) p ∧
      "e" ∈ s.members Key.globalSlots ∧ "e" ∉ p.shared.members Key.globalSlots := by
  obtain ⟨report, hruns⟩ := runs_sweptAfterFirst
  have hends := ends_releasedAfterSweep "p" "e"
  have hout : (releasedAfterSweep "p" "e").1 = .ok true := by decide +kernel
  rw [hout] at hends
  exact ⟨report, _, _, hruns, by decide +kernel, hends, by decide +kernel, by decide +kernel⟩

end Admission

end ExecutionControl
