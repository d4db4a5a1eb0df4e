import ExecutionControl.Proofs.Admission.Course
import ExecutionControl.Proofs.Admission.History
import ExecutionControl.Proofs.HealthyStore

/-! # What operations do to the sets of slots

    On a store without trouble an operation answers what the sets of slots and the ceiling
    that it reads say, and it leaves the sets that `Effect` tells. The sets are followed from
    one request to the next by `Holding`, and through each part of an operation by a lemma
    of its own; `effect_program` puts them together.

    What holds of the sets over whole runs, such as that they agree with a history, follows
    from the effects alone.
-/

namespace ExecutionControl

namespace Admission

/-! ### Changes of the sets -/

/-- The sets once the stale slots under a key are reclaimed. -/
def reclaim (a : Admission) (now : Timestamp) (key : String) (sets : String → Members) :
    String → Members :=
  Function.update sets key (a.purged now (sets key))

/-- The sets once the stale slots of an organisation and of the whole system are reclaimed. -/
def reclaimBoth (a : Admission) (now : Timestamp) (orgId : String) (sets : String → Members) :
    String → Members :=
  a.reclaim now Key.globalSlots (a.reclaim now (Key.orgSlots orgId) sets)

/-- The sets once an execution has its slots, with this score. -/
def occupy (orgId executionId : String) (score : Float) (sets : String → Members) :
    String → Members :=
  changeSlots (fun _ => orgId) executionId (fun m => m.insert executionId score) sets

/-- The sets once the slots of an execution are given back. -/
def vacate (orgId executionId : String) (sets : String → Members) : String → Members :=
  changeSlots (fun _ => orgId) executionId (fun m => m.erase executionId) sets

section

variable {a : Admission} {now : Timestamp} {sets : String → Members} {key k o e member : String}
  {score score' : Float}

theorem getElem?_reclaim : (a.reclaim now key sets k)[e]? = some score ↔
    (sets k)[e]? = some score ∧ (k = key → score > a.cutoff now) := by
  unfold reclaim
  by_cases hk : k = key
  · subst hk
    rw [Function.update_self, getElem?_purged]
    simp
  · rw [Function.update_of_ne hk]
    simp [hk]

theorem getElem?_occupy : (occupy o e score sets key)[member]? =
    if (key = Key.orgSlots o ∨ key = Key.globalSlots) ∧ e = member then some score
    else (sets key)[member]? :=
  getElem?_changeSlots fun m => by
    rw [Std.ExtTreeMap.getElem?_insert]
    simp

theorem getElem?_vacate : (vacate o e sets key)[member]? =
    if (key = Key.orgSlots o ∨ key = Key.globalSlots) ∧ e = member then none
    else (sets key)[member]? :=
  getElem?_changeSlots fun m => by
    rw [Std.ExtTreeMap.getElem?_erase]
    simp

end

/-! ### Answers and effects -/

/-- What is decided on an execution, under a ceiling and by the sets that are counted. -/
def decisionBy (a : Admission) (c : ExecutionContext) (limit : Nat) (sets : String → Members) :
    Decision :=
  if (sets (Key.orgSlots c.orgId)).size ≥ limit then
    .rejected ⟨.orgLimitExceeded, (sets (Key.orgSlots c.orgId)).size, limit⟩
  else if (sets Key.globalSlots).size ≥ a.config.globalLimit then
    .rejected ⟨.globalLimitExceeded, (sets Key.globalSlots).size, a.config.globalLimit⟩
  else .admitted false

/-- The sets once it is decided on an execution. -/
def setsAfter (c : ExecutionContext) (now : Timestamp) (sets : String → Members) :
    Decision → String → Members
  | .admitted _ => occupy c.orgId c.executionId now.score sets
  | .rejected _ => sets

/-- What an operation answers and which sets it leaves, by the sets that it finds and the
    ceiling that it reads. -/
def Effect (a : Admission) (log : Log) (sets sets' : String → Members) :
    (op : Operation) → op.Result → Prop
  | .tryAdmit c now, result => ∃ limit, a.limitRead (.tryAdmit c now) log = some limit ∧
    result = .ok (a.decisionBy c limit (a.reclaimBoth now c.orgId sets)) ∧
    sets' = setsAfter c now (a.reclaimBoth now c.orgId sets)
      (a.decisionBy c limit (a.reclaimBoth now c.orgId sets))
  | .release o e, result =>
    result = ((sets (Key.orgSlots o)).contains e || (sets Key.globalSlots).contains e) ∧
      sets' = vacate o e sets
  | .usage o now, result => ∃ limit, a.limitRead (.usage o now) log = some limit ∧
    result = .ok ⟨o, (a.reclaimBoth now o sets (Key.orgSlots o)).size, limit,
      (a.reclaimBoth now o sets Key.globalSlots).size, a.config.globalLimit⟩ ∧
    sets' = a.reclaimBoth now o sets
  | .sweepOrg o now, _ => sets' = a.reclaim now (Key.orgSlots o) sets
  | .sweepAll now, _ => ∃ keys : List String, (∀ key ∈ keys, Key.IsSlots key) ∧
    sets' = a.reclaim now Key.globalSlots (keys.foldl (fun m key => a.reclaim now key m) sets)
  | .setLimit _ _, _ => sets' = sets
  | .deleteLimit _, _ => sets' = sets

/-! ### Between two requests -/

/-- An operation between two requests: the ceiling that it has read, and the sets of slots
    and the lock that the store holds. -/
structure Holding (a : Admission) (op : Operation) (sets : String → Members)
    (lock : Option (String × String)) (limit : Option Nat) (p : Point) : Prop where
  limit_eq : a.limitRead op p.log = limit
  healthy : p.shared.coord.Healthy sets lock

variable {a : Admission} {op : Operation} {sets : String → Members} {now : Timestamp}
  {lock : Option (String × String)} {limit limit' : Option Nat} {p : Point} {s s' : Shared}
  {key o e : String} {c : ExecutionContext} {O : Overflow → Point → Prop}

/-- A request that neither changes the store nor reads a ceiling. -/
theorem Holding.silent {r : Request} {reply : r.Reply} (h : a.Holding op sets lock limit p)
    (hlimit : ∀ g : Stage, (g.after a ⟨s'.now, r, reply⟩).limit = g.limit)
    (hcoord : s'.coord = p.shared.coord) : a.Holding op sets lock limit (p.asked s' r reply) where
  limit_eq := (hlimit _).trans h.limit_eq
  healthy := by
    show s'.coord.Healthy sets lock
    rw [hcoord]
    exact h.healthy

/-- A request that writes one set. -/
theorem Holding.putMembers {r : Request} {reply : r.Reply} {m : Members}
    (h : a.Holding op sets lock limit p) (hkey : Key.IsSlots key)
    (hlimit : ∀ g : Stage, (g.after a ⟨s'.now, r, reply⟩).limit = g.limit)
    (hcoord : s'.coord = p.shared.coord.putMembers s'.now key m) :
    a.Holding op (Function.update sets key m) lock limit (p.asked s' r reply) where
  limit_eq := (hlimit _).trans h.limit_eq
  healthy := by
    show s'.coord.Healthy _ lock
    rw [hcoord]
    exact h.healthy.putMembers hkey _

theorem Holding.purge {Q : Nat → Point → Prop} {E : CoordError → Point → Prop}
    (h : a.Holding op sets lock limit p) (hkey : Key.IsSlots key)
    (hQ : ∀ n p', a.Holding op (a.reclaim now key sets) lock limit p' → Q n p') :
    Coord.ensures (serving .durable a.BeyondClock) Q E (a.purge key now) p := by
  unfold Admission.purge
  refine serving_carried (fun _ h => h) (fun t => h.healthy.perform_removeScores hkey _ _) ?_
  intro s' _ hcoord
  exact hQ _ _ (h.putMembers hkey (fun _ => rfl) hcoord)

theorem Holding.count {Q : Nat → Point → Prop} {E : CoordError → Point → Prop}
    (h : a.Holding op sets lock limit p) (hkey : Key.IsSlots key)
    (hQ : ∀ p', a.Holding op sets lock limit p' → Q (sets key).size p') :
    Coord.ensures (serving .durable a.BeyondClock) Q E (Coord.call (.cardinality key)) p := by
  refine serving_carried (fun _ h => h) (fun t => h.healthy.perform_cardinality hkey) ?_
  intro s' _ hcoord
  refine hQ _ (h.silent (fun g => ?_) hcoord)
  simp only [Stage.after]
  split <;> rfl

theorem Holding.addMember {score : Float} {Q : Bool → Point → Prop}
    {E : CoordError → Point → Prop} (h : a.Holding op sets lock limit p)
    (hkey : Key.IsSlots key)
    (hQ : ∀ new p', a.Holding op (Function.update sets key ((sets key).insert e score)) lock limit
      p' → Q new p') :
    Coord.ensures (serving .durable a.BeyondClock) Q E (Coord.call (.addMember key e score)) p := by
  refine serving_carried (fun _ h => h) (fun t => h.healthy.perform_addMember hkey score) ?_
  intro s' _ hcoord
  refine hQ _ _ (h.putMembers hkey (fun g => ?_) hcoord)
  simp only [Stage.after]
  split <;> rfl

theorem Holding.removeMember {Q : Except CoordError Bool → Point → Prop}
    (h : a.Holding op sets lock limit p) (hkey : Key.IsSlots key)
    (hQ : ∀ p', a.Holding op (Function.update sets key ((sets key).erase e)) lock limit p' →
      Q (.ok ((sets key).contains e)) p') :
    serving .durable O (.coord (.removeMember key e)) Q p := by
  refine serving_carried (fun _ h => h) (fun t => h.healthy.perform_removeMember hkey) ?_
  intro s' _ hcoord
  exact hQ _ (h.putMembers hkey (fun _ => rfl) hcoord)

/-- Looking up the ceiling leaves the sets of slots and the lock as they are. -/
theorem Holding.lookUp {n : Nat} {p' : Point} (h : a.Holding op sets lock limit p)
    (hl : LooksUp o p p') (hlimit : a.limitRead op p'.log = some n) :
    a.Holding op sets lock (some n) p' where
  limit_eq := hlimit
  healthy := by
    apply h.healthy.of_entries hl.available
    · intro key hkey
      exact hl.entries key (hkey.ne_limitCache o)
    · intro p
      exact hl.entries _ (Key.limitCache_ne_orgLock o p).symm

/-! ### The lock -/

/-- The lock is free, and is taken at the first try. -/
theorem Holding.pollLock {token : String} {deadline : Moment} {rounds : Nat}
    {Q : Bool → Point → Prop} {E : CoordError → Point → Prop}
    (h : a.Holding op sets none limit p) (hrounds : 0 < rounds)
    (hQ : ∀ p', a.Holding op sets (some (o, token)) limit p' → Q true p') :
    Coord.ensures (serving .durable a.BeyondClock) Q E
      (a.pollLock (Key.orgLock o) token deadline rounds) p := by
  obtain ⟨rounds, rfl⟩ := Nat.exists_eq_succ_of_ne_zero (Nat.ne_of_gt hrounds)
  simp only [Admission.pollLock, Coord.ensures_bind]
  refine serving_coord (fun reply s₁ _ hp => ?_) (fun e s₁ _ _ he => he.elim)
    fun o' s₁ _ _ hp => ?_
  · obtain ⟨rfl, hlocked⟩ := h.healthy.perform_tryLock hp
    exact hQ _ ⟨h.limit_eq, hlocked⟩
  · obtain ⟨rfl, hbound⟩ := CoordStore.perform_tryLock_error hp
    exact .lockTtl hbound

/-- The lock is given back. -/
theorem Holding.unlock {token : String} {Q : Except CoordError Bool → Point → Prop}
    (h : a.Holding op sets (some (o, token)) limit p)
    (hQ : ∀ reply p', a.Holding op sets none limit p' → Q reply p') :
    serving .durable a.BeyondClock (.coord (.unlock (Key.orgLock o) token)) Q p := by
  refine serving_coord (fun reply s₁ _ hp => ?_) (fun e s₁ _ _ he => he.elim)
    fun o' s₁ _ _ hp => by cases hp
  exact hQ reply _ ⟨h.limit_eq, (h.healthy.perform_unlock hp).2⟩

/-! ### Admissions -/

/-- A slot is taken in one set after the other. -/
theorem Holding.occupy {score : Float} {Q : Bool → Point → Prop}
    {E : CoordError → Point → Prop} (h : a.Holding op sets lock limit p)
    (hQ : ∀ new p', a.Holding op (occupy o e score sets) lock limit p' → Q new p') :
    Coord.ensures (serving .durable a.BeyondClock)
      (fun _ => Coord.ensures (serving .durable a.BeyondClock) Q E
        (Coord.call (.addMember Key.globalSlots e score))) E
      (Coord.call (.addMember (Key.orgSlots o) e score)) p := by
  apply h.addMember (Key.isSlots_orgSlots o)
  intro _ p₁ h₁
  apply h₁.addMember Key.isSlots_globalSlots
  intro new p₂ h₂
  refine hQ new p₂ ?_
  rwa [Function.update_of_ne (Key.orgSlots_ne_globalSlots o).symm] at h₂

theorem Holding.checkAndOccupy {Q : Decision → Point → Prop} {E : CoordError → Point → Prop}
    (h : a.Holding op sets lock limit p)
    (hQ : ∀ n p', a.Holding op
        (setsAfter c now (a.reclaimBoth now c.orgId sets)
          (a.decisionBy c n (a.reclaimBoth now c.orgId sets))) lock (some n) p' →
      Q (a.decisionBy c n (a.reclaimBoth now c.orgId sets)) p') :
    Coord.ensures (serving .durable a.BeyondClock) Q E (a.checkAndOccupy c now) p := by
  simp only [Admission.checkAndOccupy, Coord.ensures_bind]
  apply h.purge (Key.isSlots_orgSlots _)
  intro _ p₁ h₁
  apply h₁.purge Key.isSlots_globalSlots
  intro _ p₂ h₂
  replace h₂ : a.Holding op (a.reclaimBoth now c.orgId sets) lock limit p₂ := h₂
  -- Both sets are as they will be counted.
  generalize a.reclaimBoth now c.orgId sets = counted at h₂ hQ
  apply h₂.count (Key.isSlots_orgSlots _)
  intro p₃ h₃
  rw [Coord.ensures_lift]
  apply ensures_getLimit fun _ => .cacheTtl
  intro n p₄ hl hlimit
  have h₄ := h₃.lookUp hl (hlimit _)
  specialize hQ n
  unfold decisionBy at hQ
  by_cases horg : (counted (Key.orgSlots c.orgId)).size ≥ n
  · rw [if_pos horg] at hQ
    simp only [horg, if_true, Coord.ensures_pure]
    exact hQ p₄ h₄
  · rw [if_neg horg] at hQ
    simp only [horg, if_false, Coord.ensures_bind]
    apply h₄.count Key.isSlots_globalSlots
    intro p₅ h₅
    by_cases hglobal : (counted Key.globalSlots).size ≥ a.config.globalLimit
    · rw [if_pos hglobal] at hQ
      simp only [hglobal, if_true, Coord.ensures_bind, Coord.ensures_lift,
        Program.ensures_report]
      apply serving_other (by simp)
      intro _ s₆ _ hcoord
      exact hQ _ (h₅.silent (fun _ => rfl) hcoord)
    · rw [if_neg hglobal] at hQ
      simp only [hglobal, if_false, Coord.ensures_bind]
      apply h₅.occupy
      intro _ p₇ h₇
      exact hQ p₇ h₇

/-! ### Operations -/

/-- What an operation ensures: it answers and leaves the sets as its effect tells. -/
def Effected (a : Admission) (sets : String → Members) (op : Operation) (result : op.Result)
    (p : Point) : Prop :=
  ∃ sets', p.shared.coord.Healthy sets' none ∧ a.Effect p.log sets sets' op result

theorem effect_tryAdmit (h : s.coord.Healthy sets none) :
    (a.tryAdmitAt c now).ensures (serving .durable a.BeyondClock)
      (a.Effected sets (.tryAdmit c now)) ⟨s, []⟩ := by
  have h₀ : a.Holding (.tryAdmit c now) sets none none ⟨s, []⟩ := ⟨rfl, h⟩
  simp only [tryAdmitAt, Program.ensures_bind, Program.ensures_token]
  apply serving_other (by simp)
  intro token s₁ _ hcoord₁
  have h₁ : a.Holding (.tryAdmit c now) sets none none (Point.asked ⟨s, []⟩ s₁ .token token) :=
    h₀.silent (fun _ => rfl) hcoord₁
  simp only [acquireLock, Program.ensures_run, Coord.ensures_bind, Coord.ensures_lift,
    Program.ensures_clock]
  apply serving_clock
  intro s₂ _ hcoord₂
  refine ensures_lockDeadline (Nat.le_refl s₂.now) fun deadline hbound => ?_
  apply Holding.pollLock (h₁.silent (fun _ => rfl) hcoord₂) (Nat.zero_lt_of_lt hbound)
  intro p₃ h₃
  simp only [Program.ensures_map, decideLocked, Program.ensures_bind, Program.ensures_run]
  apply h₃.checkAndOccupy
  intro n p₄ h₄
  simp only [Program.ensures_coord]
  apply h₄.unlock
  intro reply p₅ h₅
  exact ⟨_, h₅.healthy, n, h₅.limit_eq, rfl, rfl⟩

/-- A release has no deadlines, and so no overflow ends it. -/
theorem effect_release (h : s.coord.Healthy sets none) :
    (Admission.release o e).ensures (serving .durable O)
      (a.Effected sets (.release o e)) ⟨s, []⟩ := by
  have h₀ : a.Holding (.release o e) sets none none ⟨s, []⟩ := ⟨rfl, h⟩
  simp only [Admission.release, Program.ensures_bind, Program.ensures_coord]
  apply h₀.removeMember (Key.isSlots_orgSlots o)
  intro p₁ h₁
  apply h₁.removeMember Key.isSlots_globalSlots
  intro p₂ h₂
  rw [Function.update_of_ne (Key.orgSlots_ne_globalSlots o).symm] at h₂ ⊢
  exact ⟨_, h₂.healthy, rfl, rfl⟩

theorem effect_usage (h : s.coord.Healthy sets none) :
    (a.usageAt o now).run.ensures (serving .durable a.BeyondClock)
      (a.Effected sets (.usage o now)) ⟨s, []⟩ := by
  have h₀ : a.Holding (.usage o now) sets none none ⟨s, []⟩ := ⟨rfl, h⟩
  simp only [usageAt, Program.ensures_run, Coord.ensures_bind]
  apply h₀.purge (Key.isSlots_orgSlots _)
  intro _ p₁ h₁
  apply h₁.purge Key.isSlots_globalSlots
  intro _ p₂ h₂
  apply h₂.count (Key.isSlots_orgSlots _)
  intro p₃ h₃
  apply h₃.count Key.isSlots_globalSlots
  intro p₄ h₄
  rw [Coord.ensures_lift]
  apply ensures_getLimit fun _ => .cacheTtl
  intro n p₅ hl hlimit
  have h₅ := h₄.lookUp hl (hlimit _)
  exact ⟨_, h₅.healthy, n, h₅.limit_eq, rfl, rfl⟩

theorem effect_sweepOrg (h : s.coord.Healthy sets none) :
    (a.sweepOrgAt o now).run.ensures (serving .durable a.BeyondClock)
      (a.Effected sets (.sweepOrg o now)) ⟨s, []⟩ := by
  have h₀ : a.Holding (.sweepOrg o now) sets none none ⟨s, []⟩ := ⟨rfl, h⟩
  simp only [sweepOrgAt, Program.ensures_run]
  exact h₀.purge (Key.isSlots_orgSlots _) fun _ p₁ h₁ => ⟨_, h₁.healthy, rfl⟩

/-- A sweep reclaims the stale slots of one organisation after another. -/
theorem Holding.sweepSets {keys : List String} {report : SweepReport}
    {Q : SweepReport → Point → Prop} {E : CoordError → Point → Prop}
    (h : a.Holding op sets lock limit p)
    (hQ : ∀ report (reclaimed : List String) p', (∀ key ∈ reclaimed, Key.IsSlots key) →
      a.Holding op (reclaimed.foldl (fun m key => a.reclaim now key m) sets) lock limit p' →
      Q report p') :
    Coord.ensures (serving .durable a.BeyondClock) Q E (a.sweepSets now keys report) p := by
  induction keys generalizing sets report p with
  | nil => exact hQ report [] p (by simp) h
  | cons key rest ih =>
    simp only [Admission.sweepSets]
    cases ho : Key.orgOfSlots? key with
    | none => simpa using ih h hQ
    | some o =>
      have hkey : Key.IsSlots key := Or.inr ⟨o, Key.eq_orgSlots_of_orgOfSlots? ho⟩
      simp only [Option.isNone_some, Bool.false_eq_true, if_false, Coord.ensures_bind,
        Coord.ensures_attempt]
      refine h.purge hkey fun n p₁ h₁ => ih h₁ fun report reclaimed p' hslots h' => ?_
      refine hQ report (key :: reclaimed) p' ?_ h'
      exact List.forall_mem_cons.mpr ⟨hkey, hslots⟩

theorem effect_sweepAll (h : s.coord.Healthy sets none) :
    (a.sweepAllAt now).run.ensures (serving .durable a.BeyondClock)
      (a.Effected sets (.sweepAll now)) ⟨s, []⟩ := by
  have h₀ : a.Holding (.sweepAll now) sets none none ⟨s, []⟩ := ⟨rfl, h⟩
  simp only [sweepAllAt, Program.ensures_run, Coord.ensures_bind]
  apply serving_carried (fun _ h => h) (fun t => h.perform_scan)
  intro s₁ _ hcoord₁
  apply Holding.sweepSets (h₀.silent (fun _ => rfl) hcoord₁)
  intro report reclaimed p₂ hslots h₂
  apply h₂.purge Key.isSlots_globalSlots
  intro _ p₃ h₃
  exact ⟨_, h₃.healthy, reclaimed, hslots, rfl⟩

/-- A cached ceiling that is dropped leaves the sets of slots as they are. -/
theorem ensures_invalidate {Q : Bool → Point → Prop} (h : p.shared.coord.Healthy sets none)
    (hQ : ∀ existed p', p'.shared.coord.Healthy sets none → Q existed p') :
    (a.cache.invalidate o).ensures (serving .durable a.BeyondClock) Q p := by
  simp only [LimitCache.invalidate, Program.ensures_bind, Program.ensures_coord]
  apply serving_carried (fun _ h => h) (fun t => h.perform_delete)
  intro s₁ _ hcoord₁
  refine hQ _ _ ?_
  rw [Point.asked, hcoord₁]
  exact h.drop_limitCache o

theorem effect_setLimit {n : Nat} (h : s.coord.Healthy sets none) :
    (a.cache.setLimit o n).ensures (serving .durable a.BeyondClock)
      (a.Effected sets (.setLimit o n)) ⟨s, []⟩ := by
  simp only [LimitCache.setLimit, Program.ensures_bind, Program.ensures_limits]
  apply serving_other (by simp)
  intro reply s₁ _ hcoord₁
  have h₁ : s₁.coord.Healthy sets none := by
    rw [hcoord₁]
    exact h
  cases reply with
  | error e => exact ⟨sets, h₁, rfl⟩
  | ok row =>
    simp only [Program.ensures_bind]
    exact ensures_invalidate h₁ fun existed p₂ h₂ => ⟨sets, h₂, rfl⟩

theorem effect_deleteLimit (h : s.coord.Healthy sets none) :
    (a.cache.deleteLimit o).ensures (serving .durable a.BeyondClock)
      (a.Effected sets (.deleteLimit o)) ⟨s, []⟩ := by
  simp only [LimitCache.deleteLimit, Program.ensures_bind, Program.ensures_limits]
  apply serving_other (by simp)
  intro reply s₁ _ hcoord₁
  have h₁ : s₁.coord.Healthy sets none := by
    rw [hcoord₁]
    exact h
  cases reply with
  | error e => exact ⟨sets, h₁, rfl⟩
  | ok existed =>
    simp only [Program.ensures_bind]
    exact ensures_invalidate h₁ fun existed p₂ h₂ => ⟨sets, h₂, rfl⟩

/-- On a store without trouble every operation answers and leaves the sets as its effect
    tells. -/
theorem effect_program (h : s.coord.Healthy sets none) :
    (a.program op).ensures (serving .durable a.BeyondClock) (a.Effected sets op) ⟨s, []⟩ := by
  cases op with
  | tryAdmit c now => exact effect_tryAdmit h
  | release o e => exact effect_release h
  | usage o now => exact effect_usage h
  | sweepOrg o now => exact effect_sweepOrg h
  | sweepAll now => exact effect_sweepAll h
  | setLimit o n => exact effect_setLimit h
  | deleteLimit o => exact effect_deleteLimit h

end Admission

end ExecutionControl
