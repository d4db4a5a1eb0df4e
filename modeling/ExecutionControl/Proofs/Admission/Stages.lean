import ExecutionControl.Proofs.Admission.Operations
import ExecutionControl.Proofs.KeyFamilies

/-! # The stages of an admission

    An admission draws a token, takes the lock of its organisation, counts, reads the
    ceiling, counts again and takes its slots, each by a request of its own. Its stage is
    what it knows between two of them: since when it holds the lock, and the counts and
    the ceiling that it has read. A count is used up by the slot that it allows.

    `discipline_holds` says that only admissions touch locks and take slots, that they do
    so under their own token and while they hold the lock, and only if the count that they
    read lies below the ceiling.
-/

namespace ExecutionControl

/-! ### Stages -/

/-- What an operation knows from its requests so far. -/
structure Stage where
  token : Option String := none
  /-- When the lock was taken, if it was not given back. -/
  since : Option Moment := none
  /-- How many slots of the organisation were counted, before one is taken. -/
  orgCount : Option Nat := none
  /-- The ceiling of the organisation that was read. -/
  limit : Option Nat := none
  /-- How many slots of the whole system were counted, before one is taken. -/
  globalCount : Option Nat := none
  deriving DecidableEq

namespace Stage

/-- The stage after a request is answered. -/
def after (a : Admission) (g : Stage) : Exchange → Stage
  | ⟨_, .token, token⟩ => { g with token := some token }
  -- What was counted before the lock is taken does not count.
  | ⟨t, .coord (.tryLock ..), .ok true⟩ =>
    { g with since := some t, orgCount := none, globalCount := none }
  | ⟨_, .coord (.unlock ..), _⟩ => { g with since := none, orgCount := none, globalCount := none }
  | ⟨_, .coord (.cardinality key), .ok n⟩ =>
    if key = Key.globalSlots then { g with globalCount := some n }
    else { g with orgCount := some n }
  | ⟨_, .coord (.addMember key ..), _⟩ =>
    if key = Key.globalSlots then { g with globalCount := none } else { g with orgCount := none }
  | ⟨_, .coord (.getText _), .ok (some raw)⟩ =>
    match LimitCache.cachedLimit? raw with
    | some n => { g with limit := some n }
    | none => g
  | ⟨_, .limits (.get _), .ok row⟩ => { g with limit := some (a.cache.limitOfRow row) }
  | ⟨_, .limits (.get _), .error _⟩ => { g with limit := some a.cache.defaultLimit }
  | _ => g

/-- Which requests an operation may make. -/
def Permits (a : Admission) (op : Operation) (g : Stage) : Request → Prop
  | .token => ∃ c now, op = .tryAdmit c now ∧ g.token = none
  | .coord (.tryLock key token ttl) => ∃ c now, op = .tryAdmit c now ∧ key = Key.orgLock c.orgId ∧
      g.token = some token ∧ g.since = none ∧ ttl = a.config.lockTtl
  | .coord (.unlock key token) => ∃ c now, op = .tryAdmit c now ∧ key = Key.orgLock c.orgId ∧
      g.token = some token
  | .coord (.addMember key member _) => ∃ c now t, op = .tryAdmit c now ∧ g.since = some t ∧
      member = c.executionId ∧
      ((key = Key.orgSlots c.orgId ∧
          ∃ n limit, g.orgCount = some n ∧ g.limit = some limit ∧ n < limit) ∨
        (key = Key.globalSlots ∧ ∃ n, g.globalCount = some n ∧ n < a.config.globalLimit))
  | .coord (.cardinality key) =>
      ∀ c now, op = .tryAdmit c now → key = Key.orgSlots c.orgId ∨ key = Key.globalSlots
  | .coord (.removeScores key ..) => Key.IsSlots key
  | .coord (.removeMember key _) => Key.IsSlots key
  | .coord (.getText key) => ∃ o, op.looksUp? = some o ∧ key = Key.limitCache o
  | .coord (.setText key value _) => ∃ o n, op.looksUp? = some o ∧ key = Key.limitCache o ∧
      g.limit = some n ∧ value = toString n
  | .coord (.delete key) => ∃ o, op.changes? = some o ∧ key = Key.limitCache o
  | .coord (.scan _) => True
  | .coord _ => False
  | .limits (.get o) => op.looksUp? = some o
  | .limits (.upsert o _) => op.changes? = some o
  | .limits (.delete o) => op.changes? = some o
  | .limits .list => False
  | .files _ => False
  | .clock => True
  | .sleep _ => True
  | .time => True
  | .report _ => True
  | .stop _ => True

end Stage

namespace Admission

/-- The discipline of the operations on slots. -/
abbrev discipline (a : Admission) : Discipline a.repertoire where
  Stage := Stage
  fresh := {}
  after _ g x := g.after a x
  Permits op g r := g.Permits a op r

variable {a : Admission} {op : Operation} {c : ExecutionContext} {now : Timestamp} {g : Stage}

/-! ### The ceiling that is read -/

theorem load_keeps {o : String} {reachable : Bool} {Q : Nat → Stage → Prop}
    (ho : op.looksUp? = some o)
    (hQ : ∀ n, Q n { g with limit := some n }) :
    (a.cache.load o reachable).ensures (a.discipline.terms op) Q g := by
  simp only [LimitCache.load, Program.ensures_bind, Program.ensures_limits]
  refine ⟨ho, fun t reply => ?_⟩
  cases reply with
  | ok row =>
    cases reachable with
    | true =>
      simp only [if_true, Program.ensures_bind, Program.ensures_coord]
      exact ⟨⟨o, _, ho, rfl, rfl, rfl⟩, fun t reply => hQ _⟩
    | false => exact hQ _
  | error e =>
    simp only [Program.ensures_bind, Program.ensures_report]
    exact ⟨trivial, fun t reply => hQ _⟩

/-- The ceiling that an operation gets is the one that its stage holds. -/
theorem getLimit_keeps {o : String} {Q : Nat → Stage → Prop} (ho : op.looksUp? = some o)
    (hQ : ∀ n, Q n { g with limit := some n }) :
    (a.cache.getLimit o).ensures (a.discipline.terms op) Q g := by
  simp only [LimitCache.getLimit, Program.ensures_bind, Program.ensures_coord]
  refine ⟨⟨o, ho, rfl⟩, fun t reply => ?_⟩
  match reply with
  | .ok none => exact load_keeps ho hQ
  | .ok (some raw) =>
    cases hraw : LimitCache.cachedLimit? raw with
    | some n => simpa [hraw, Stage.after] using hQ n
    | none =>
      simp only [hraw, Program.ensures_bind, Program.ensures_report]
      refine ⟨trivial, fun t' reply' => ?_⟩
      simp only [Stage.after, hraw]
      exact load_keeps ho hQ
  | .error e =>
    simp only [Program.ensures_bind, Program.ensures_report]
    exact ⟨trivial, fun t' reply' => load_keeps ho hQ⟩

/-! ### The lock -/

theorem pollLock_keeps {token : String} {deadline : Moment} {rounds : Nat}
    {Q : Bool → Stage → Prop} {E : CoordError → Stage → Prop}
    (htoken : g.token = some token) (hsince : g.since = none)
    (htaken : ∀ t, Q true { g with since := some t, orgCount := none, globalCount := none })
    (hbusy : Q false g) (hE : ∀ e, E e g) :
    Coord.ensures (a.discipline.terms (.tryAdmit c now)) Q E
      (a.pollLock (Key.orgLock c.orgId) token deadline rounds) g := by
  -- The stage is the same at every try, since nothing is learnt from a lock that is held.
  have hpermit : g.Permits a (.tryAdmit c now)
      (.coord (.tryLock (Key.orgLock c.orgId) token a.config.lockTtl)) :=
    ⟨c, now, rfl, rfl, htoken, hsince, rfl⟩
  induction rounds with
  | zero =>
    rw [pollLock, Coord.ensures_lift]
    exact ⟨trivial, fun _ reply => reply.elim⟩
  | succ rounds ih =>
    simp only [pollLock, Coord.ensures_bind, Coord.ensures_call]
    refine ⟨hpermit, fun t reply => ?_⟩
    match reply with
    | .ok true => exact htaken t
    | .error e => exact hE e
    | .ok false =>
      simp only [Bool.false_eq_true, if_false, Coord.ensures_bind, Coord.ensures_lift,
        Program.ensures_clock]
      refine ⟨trivial, fun t' clock => ?_⟩
      show Coord.ensures _ Q E (if clock ≥ deadline then _ else _) g
      split
      · exact hbusy
      · simp only [Coord.ensures_bind, Coord.ensures_lift, Program.ensures_sleep]
        exact ⟨trivial, fun t'' reply' => ih⟩

/-! ### The check and the slots -/

/-- Reclaiming stale slots is open to all. -/
theorem purge_keeps {key : String} {at_ : Timestamp} {Q : Nat → Stage → Prop}
    {E : CoordError → Stage → Prop} (hkey : Key.IsSlots key) (hQ : ∀ n, Q n g)
    (hE : ∀ e, E e g) :
    Coord.ensures (a.discipline.terms op) Q E (a.purge key at_) g := by
  simp only [purge]
  refine ⟨hkey, fun t reply => ?_⟩
  cases reply with
  | ok n => exact hQ n
  | error e => exact hE e

/-- The check keeps to the discipline under the lock, and keeps the token. -/
theorem checkAndOccupy_keeps {t : Moment} {token : String} {Q : Decision → Stage → Prop}
    {E : CoordError → Stage → Prop} (htoken : g.token = some token) (hsince : g.since = some t)
    (hQ : ∀ decision g', g'.token = some token → Q decision g')
    (hE : ∀ e g', g'.token = some token → E e g') :
    Coord.ensures (a.discipline.terms (.tryAdmit c now)) Q E (a.checkAndOccupy c now) g := by
  simp only [checkAndOccupy, Coord.ensures_bind]
  refine purge_keeps (Key.isSlots_orgSlots _) (fun _ => ?_) fun e => hE e g htoken
  refine purge_keeps Key.isSlots_globalSlots (fun _ => ?_) fun e => hE e g htoken
  simp only [Coord.ensures_call]
  refine ⟨fun c' now' heq => by cases heq; exact Or.inl rfl, fun _ reply => ?_⟩
  cases reply with
  | error e => exact hE e g htoken
  | ok orgCount =>
  simp only [Stage.after, Key.orgSlots_ne_globalSlots, if_false, Coord.ensures_lift]
  apply getLimit_keeps rfl
  intro orgLimit
  by_cases horg : orgCount ≥ orgLimit
  · simp only [horg, if_true, Coord.ensures_pure]
    exact hQ _ _ htoken
  · simp only [horg, if_false, Coord.ensures_bind, Coord.ensures_call]
    refine ⟨fun c' now' heq => Or.inr rfl, fun _ reply => ?_⟩
    cases reply with
    | error e => exact hE e _ htoken
    | ok globalCount =>
    simp only [Stage.after, if_true]
    by_cases hglobal : globalCount ≥ a.config.globalLimit
    · simp only [hglobal, if_true, Coord.ensures_bind, Coord.ensures_lift,
        Program.ensures_report]
      exact ⟨trivial, fun _ _ => hQ _ _ htoken⟩
    · simp only [hglobal, if_false, Coord.ensures_bind, Coord.ensures_call]
      -- Each slot is asked for against its own count, which is used up by it.
      have hbelow : orgCount < orgLimit := Nat.lt_of_not_le horg
      refine ⟨⟨c, now, t, rfl, hsince, rfl, Or.inl ⟨rfl, _, _, rfl, rfl, hbelow⟩⟩,
        fun _ reply => ?_⟩
      cases reply with
      | error e => exact hE e _ (by simpa [Stage.after] using htoken)
      | ok new =>
      simp only [Stage.after, Key.orgSlots_ne_globalSlots, if_false]
      have hbelow' : globalCount < a.config.globalLimit := Nat.lt_of_not_le hglobal
      refine ⟨⟨c, now, t, rfl, hsince, rfl, Or.inr ⟨rfl, _, rfl, hbelow'⟩⟩, fun _ reply => ?_⟩
      cases reply with
      | error e => exact hE e _ (by simpa [Stage.after] using htoken)
      | ok new => exact hQ _ _ (by simpa [Stage.after] using htoken)

theorem failOpen_keeps {e : CoordError} {Q : Decision → Stage → Prop}
    (hQ : Q (.admitted true) g) : (failOpen e).ensures (a.discipline.terms op) Q g := by
  simp only [failOpen, Program.ensures_bind, Program.ensures_report]
  exact ⟨trivial, fun _ _ => hQ⟩

theorem tryAdmitAt_keeps (c : ExecutionContext) (now : Timestamp) :
    (a.tryAdmitAt c now).ensures (a.discipline.terms (.tryAdmit c now)) (fun _ _ => True) {} := by
  simp only [tryAdmitAt, Program.ensures_bind, Program.ensures_token]
  refine ⟨⟨c, now, rfl, rfl⟩, fun _ token => ?_⟩
  simp only [acquireLock, Program.ensures_run, Coord.ensures_bind, Coord.ensures_lift,
    Program.ensures_clock]
  refine ⟨trivial, fun _ start => Program.ensures_ofChecked (fun deadline _ => ?_) fun o _ =>
    ⟨trivial, fun _ reply => reply.elim⟩⟩
  refine pollLock_keeps rfl rfl (fun t => ?_) trivial fun e => ?_
  · simp only [Program.ensures_map, decideLocked, Program.ensures_bind, Program.ensures_run]
    refine checkAndOccupy_keeps rfl rfl (fun decision g' htoken => ?_) fun e g' htoken => ?_
    · simp only [Program.ensures_coord]
      exact ⟨⟨c, now, rfl, rfl, htoken⟩, fun _ _ => trivial⟩
    · simp only [Program.ensures_coord]
      exact ⟨⟨c, now, rfl, rfl, htoken⟩, fun _ _ => failOpen_keeps trivial⟩
  · simp only [Program.ensures_map]
    exact failOpen_keeps trivial

/-! ### The other operations -/

theorem sweepSets_keeps {at_ : Timestamp} {keys : List String} {report : SweepReport}
    {Q : SweepReport → Stage → Prop} {E : CoordError → Stage → Prop} (hQ : ∀ r, Q r g)
    (hE : ∀ e, E e g) :
    Coord.ensures (a.discipline.terms op) Q E (a.sweepSets at_ keys report) g := by
  induction keys generalizing report with
  | nil => exact hQ report
  | cons key rest ih =>
    simp only [sweepSets]
    cases ho : Key.orgOfSlots? key with
    | none => simpa using ih
    | some o =>
      have hkey : Key.IsSlots key := Or.inr ⟨o, Key.eq_orgSlots_of_orgOfSlots? ho⟩
      simp only [Option.isNone_some, Bool.false_eq_true, if_false, Coord.ensures_bind,
        Coord.ensures_attempt]
      apply purge_keeps hkey (fun n => ih)
      intro e
      by_cases he : e.isUnavailable
      · simpa [he] using hE e
      · simp only [he, if_false, Bool.false_eq_true, Coord.ensures_bind, Coord.ensures_lift,
          Program.ensures_report]
        exact ⟨trivial, fun _ _ => ih⟩

theorem invalidate_keeps {o : String} {Q : Bool → Stage → Prop} (ho : op.changes? = some o)
    (hQ : ∀ b, Q b g) :
    (a.cache.invalidate o).ensures (a.discipline.terms op) Q g := by
  simp only [LimitCache.invalidate, Program.ensures_bind, Program.ensures_coord]
  refine ⟨⟨o, ho, rfl⟩, fun _ reply => ?_⟩
  cases reply with
  | ok existed => exact hQ existed
  | error e =>
    simp only [Program.ensures_bind, Program.ensures_report]
    exact ⟨trivial, fun _ _ => hQ false⟩

/-- Every operation keeps to the discipline. -/
theorem discipline_holds (a : Admission) : a.discipline.Holds := by
  intro op
  cases op with
  | tryAdmit c now => exact tryAdmitAt_keeps c now
  | release orgId executionId =>
    simp only [program, release, Program.ensures_bind, Program.ensures_coord]
    refine ⟨Key.isSlots_orgSlots _, fun _ org => ⟨Key.isSlots_globalSlots, fun _ all => ?_⟩⟩
    cases org with
    | error e =>
      simp only [Program.ensures_bind, Program.ensures_report]
      exact ⟨trivial, fun _ _ => trivial⟩
    | ok inOrg =>
      cases all with
      | ok inAll => trivial
      | error e =>
        simp only [Program.ensures_bind, Program.ensures_report]
        exact ⟨trivial, fun _ _ => trivial⟩
  | usage orgId now =>
    simp only [program, usageAt, Program.ensures_run, Coord.ensures_bind]
    refine purge_keeps (Key.isSlots_orgSlots _) (fun _ => ?_) fun _ => trivial
    refine purge_keeps Key.isSlots_globalSlots (fun _ => ?_) fun _ => trivial
    simp only [Coord.ensures_call]
    refine ⟨fun c now' heq => (by cases heq), fun _ reply => ?_⟩
    cases reply with
    | error e => trivial
    | ok orgCount =>
    refine ⟨fun c now' heq => (by cases heq), fun _ reply => ?_⟩
    cases reply with
    | error e => trivial
    | ok globalCount =>
    simp only [Coord.ensures_lift]
    exact getLimit_keeps rfl fun _ => trivial
  | sweepOrg orgId now =>
    simp only [program, sweepOrgAt, Program.ensures_run]
    exact purge_keeps (Key.isSlots_orgSlots _) (fun _ => trivial) fun _ => trivial
  | sweepAll now =>
    simp only [program, sweepAllAt, Program.ensures_run, Coord.ensures_bind, Coord.ensures_call]
    refine ⟨trivial, fun _ reply => ?_⟩
    cases reply with
    | error e => trivial
    | ok keys =>
    refine sweepSets_keeps (fun report => ?_) fun _ => trivial
    exact purge_keeps Key.isSlots_globalSlots (fun _ => trivial) fun _ => trivial
  | setLimit orgId limit =>
    simp only [program, LimitCache.setLimit, Program.ensures_bind, Program.ensures_limits]
    refine ⟨rfl, fun _ reply => ?_⟩
    cases reply with
    | error e => trivial
    | ok row =>
      simp only [Program.ensures_bind]
      exact invalidate_keeps rfl fun _ => trivial
  | deleteLimit orgId =>
    simp only [program, LimitCache.deleteLimit, Program.ensures_bind, Program.ensures_limits]
    refine ⟨rfl, fun _ reply => ?_⟩
    cases reply with
    | error e => trivial
    | ok existed =>
      simp only [Program.ensures_bind]
      exact invalidate_keeps rfl fun _ => trivial

end Admission

end ExecutionControl
