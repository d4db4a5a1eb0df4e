import ExecutionControl.Proofs.Admission.Effects

/-! # Occupancy and history

    Operations that run one after another on a store without trouble. What they answer is
    what the history before them says: `occupancy` states it for the occupancy that is
    reported and for every admission.

    The effect of each operation says what it answers and which sets it leaves;
    `answers_program` reads both off the history, as long as the sets agree with it
    (`Settled`).
-/

namespace ExecutionControl

namespace Admission

/-! ### What a history predicts -/

/-- What an admission decides after a history, under the ceiling that it reads. -/
def decisionAfter (a : Admission) (h : History) (c : ExecutionContext) (now : Timestamp)
    (limit : Nat) : Decision :=
  if a.orgCount h c.orgId now ≥ limit then
    .rejected ⟨.orgLimitExceeded, a.orgCount h c.orgId now, limit⟩
  else if a.globalCount h now ≥ a.config.globalLimit then
    .rejected ⟨.globalLimitExceeded, a.globalCount h now, a.config.globalLimit⟩
  else .admitted false

/-- Whether an operation answers what the history before it predicts. -/
def Predicts (a : Admission) (h : History) (log : Log) : (op : Operation) → op.Result → Prop
  | .tryAdmit c now, result => ∃ limit,
    a.limitRead (.tryAdmit c now) log = some limit ∧ result = .ok (a.decisionAfter h c now limit)
  | .usage o now, result => ∃ limit, a.limitRead (.usage o now) log = some limit ∧
    result = .ok ⟨o, a.orgCount h o now, limit, a.globalCount h now, a.config.globalLimit⟩
  | _, _ => True

/-- Operations that end one after another, on a store without trouble that was empty. -/
inductive Runs (a : Admission) : History → Shared → Prop
  | start {s : Shared} : s.coord.entries = ∅ → s.coord.available = true → Runs a [] s
  | next {h : History} {s : Shared} {op : Operation} {result : op.Result} {p : Point} :
    Runs a h s → (a.program op).Ends .durable ⟨s, []⟩ (.ok result) p →
    Runs a (⟨op, result⟩ :: h) p.shared

/-- What is asked of operations that are given, the latest first. -/
structure Regular (a : Admission) (ops : List Operation) : Prop where
  /-- Every execution is used with one organisation only. -/
  oneOrg : ∀ q ∈ ops.filterMap Operation.about?, ∀ q' ∈ ops.filterMap Operation.about?,
    q.2 = q'.2 → q.1 = q'.1
  /-- Time does not run backwards. -/
  inOrder : (ops.filterMap Operation.at?).Pairwise fun later earlier =>
    earlier.exact ≤ later.exact
  /-- Scores compare as the exact numbers that they stand for: no rounding of a time or of a
      cutoff moves one past the other. -/
  exactScores : (ops.filterMap Operation.at?).Pairwise fun later earlier =>
    (earlier.score > a.cutoff later ↔ a.Counts earlier later)

/-- The store between two operations. -/
def Settled (a : Admission) (owner : String → String) (h : History) (s : Shared) : Prop :=
  ∃ sets, s.coord.Healthy sets none ∧ a.Coupled owner (h.admitted owner) h.times sets

/-! ### Answers -/

variable {a : Admission} {op : Operation} {owner : String → String}
  {admitted : String → Option Timestamp} {times : List Timestamp} {now : Timestamp}
  {sets sets' : String → Members} {h : History} {c : ExecutionContext} {s : Shared} {p : Point}
  {log : Log} {o e : String}

/-- What an operation ensures after a history: it answers what the history predicts, and
    leaves a store that agrees with the history and itself. -/
def Answers (a : Admission) (owner : String → String) (h : History) (op : Operation)
    (result : op.Result) (p : Point) : Prop :=
  a.Predicts h p.log op result ∧ a.Settled owner (⟨op, result⟩ :: h) p.shared

theorem admitted_tryAdmit (howner : owner c.executionId = c.orgId) :
    History.admitted owner (⟨.tryAdmit c now, .ok (.admitted false)⟩ :: h) =
      Function.update (h.admitted owner) c.executionId (some now) := by
  funext e
  unfold History.admitted
  rw [History.admittedAt]
  by_cases he : e = c.executionId
  · subst he
    rw [Function.update_self, if_pos ⟨howner.symm, rfl⟩]
  · rw [Function.update_of_ne he, if_neg fun hsame => he hsame.2.symm]

theorem admitted_release (howner : owner e = o) (result : Bool) :
    History.admitted owner (⟨.release o e, result⟩ :: h) =
      Function.update (h.admitted owner) e none := by
  funext e'
  unfold History.admitted
  rw [History.admittedAt]
  by_cases he : e' = e
  · subst he
    rw [Function.update_self, if_pos ⟨howner.symm, rfl⟩]
  · rw [Function.update_of_ne he, if_neg fun hsame => he hsame.2.symm]

/-- The sets that are counted hold the live executions and no others. -/
theorem Coupled.reclaimBoth (hc : a.Coupled owner admitted times sets)
    (hclock : a.Clocked admitted times now) (o : String) :
    a.Coupled owner admitted times (a.reclaimBoth now o sets) ∧
      a.Fresh admitted now (a.reclaimBoth now o sets (Key.orgSlots o)) ∧
      a.Fresh admitted now (a.reclaimBoth now o sets Key.globalSlots) := by
  have horg := hc.purge hclock (Key.isSlots_orgSlots o)
  refine ⟨horg.purge hclock Key.isSlots_globalSlots, ?_, ?_⟩
  · rw [Admission.reclaimBoth, reclaim, Function.update_of_ne (Key.orgSlots_ne_globalSlots o),
      reclaim, Function.update_self]
    exact hc.fresh_purged hclock (Key.isSlots_orgSlots o)
  · rw [Admission.reclaimBoth, reclaim, Function.update_self]
    exact horg.fresh_purged hclock Key.isSlots_globalSlots

/-- What is decided by the sets is what the history predicts. -/
theorem Coupled.decisionBy {limit : Nat} (hc : a.Coupled owner (h.admitted owner) times sets)
    (hclock : a.Clocked (h.admitted owner) times now)
    (horg : a.Fresh (h.admitted owner) now (sets (Key.orgSlots c.orgId)))
    (hglobal : a.Fresh (h.admitted owner) now (sets Key.globalSlots))
    (howner : ∀ q ∈ h.executions, owner q.2 = q.1) :
    a.decisionBy c limit sets = a.decisionAfter h c now limit := by
  rw [Admission.decisionBy, decisionAfter, hc.size_orgSlots hclock horg howner,
    hc.size_globalSlots hclock hglobal howner]

theorem answers_tryAdmit {result : (Operation.tryAdmit c now).Result}
    (hc : a.Coupled owner (h.admitted owner) (now :: h.times) sets)
    (hclock : a.Clocked (h.admitted owner) (now :: h.times) now)
    (hexecutions : ∀ q ∈ h.executions, owner q.2 = q.1)
    (howner : owner c.executionId = c.orgId)
    (heffect : a.Effect log sets sets' (.tryAdmit c now) result) :
    a.Predicts h log (.tryAdmit c now) result ∧
      a.Coupled owner (History.admitted owner (⟨.tryAdmit c now, result⟩ :: h)) (now :: h.times)
        sets' := by
  obtain ⟨limit, hlimit, rfl, rfl⟩ := heffect
  obtain ⟨hcounted, horg, hglobal⟩ := hc.reclaimBoth hclock c.orgId
  generalize a.reclaimBoth now c.orgId sets = counted at hcounted horg hglobal
  have hdecision : a.decisionBy c limit counted = a.decisionAfter h c now limit :=
    hcounted.decisionBy hclock horg hglobal hexecutions
  refine ⟨⟨limit, hlimit, congrArg Except.ok hdecision⟩, ?_⟩
  unfold Admission.decisionBy
  split
  · exact hcounted
  split
  · exact hcounted
  · -- Only an execution that passes both checks is admitted.
    rw [admitted_tryAdmit howner]
    have hadmit := hcounted.admit c.executionId now
    unfold changeSlots at hadmit
    rw [howner] at hadmit
    exact hadmit

theorem answers_release (hc : a.Coupled owner (h.admitted owner) h.times sets)
    (howner : owner e = o) (result : Bool) :
    a.Coupled owner (History.admitted owner (⟨.release o e, result⟩ :: h)) h.times
      (vacate o e sets) := by
  rw [admitted_release howner]
  have hrelease := hc.release e
  unfold changeSlots at hrelease
  rw [howner] at hrelease
  exact hrelease

theorem answers_usage {result : (Operation.usage o now).Result}
    (hc : a.Coupled owner (h.admitted owner) (now :: h.times) sets)
    (hclock : a.Clocked (h.admitted owner) (now :: h.times) now)
    (hexecutions : ∀ q ∈ h.executions, owner q.2 = q.1)
    (heffect : a.Effect log sets sets' (.usage o now) result) :
    a.Predicts h log (.usage o now) result ∧
      a.Coupled owner (h.admitted owner) (now :: h.times) sets' := by
  obtain ⟨limit, hlimit, rfl, rfl⟩ := heffect
  obtain ⟨hcounted, horg, hglobal⟩ := hc.reclaimBoth hclock o
  rw [hcounted.size_orgSlots hclock horg hexecutions,
    hcounted.size_globalSlots hclock hglobal hexecutions]
  exact ⟨⟨limit, hlimit, rfl⟩, hcounted⟩

/-- Whatever a sweep reclaims, the sets agree with the history. -/
theorem Coupled.reclaimAll {keys : List String} (hc : a.Coupled owner admitted times sets)
    (hclock : a.Clocked admitted times now) (hkeys : ∀ key ∈ keys, Key.IsSlots key) :
    a.Coupled owner admitted times (keys.foldl (fun m key => a.reclaim now key m) sets) := by
  induction keys generalizing sets with
  | nil => exact hc
  | cons key rest ih =>
    obtain ⟨hkey, hrest⟩ := List.forall_mem_cons.mp hkeys
    exact ih (hc.purge hclock hkey) hrest

/-! ### Whole runs -/

/-- Every operation answers what the history before it predicts. -/
theorem answers_program (hs : a.Settled owner h s)
    (howner : ∀ q ∈ (op :: h.ops).filterMap Operation.about?, owner q.2 = q.1)
    (hclock : ∀ now ∈ op.at?, a.Clocked (h.admitted owner) (now :: h.times) now) :
    (a.program op).ensures (serving .durable a.BeyondClock) (a.Answers owner h op) ⟨s, []⟩ := by
  obtain ⟨sets, hhealthy, hc⟩ := hs
  -- The executions of the history are among those of the operation and the history.
  have hexecutions : ∀ q ∈ h.executions, owner q.2 = q.1 := by
    intro q hq
    refine howner q ?_
    rw [List.filterMap_cons]
    split
    · exact hq
    · exact List.mem_cons_of_mem _ hq
  refine (effect_program hhealthy).imp fun result p ⟨sets', hhealthy', heffect⟩ => ?_
  cases op with
  | tryAdmit c now =>
    obtain ⟨hpredicts, hc'⟩ := answers_tryAdmit (hc.later now) (hclock now rfl) hexecutions
      (howner _ List.mem_cons_self) heffect
    exact ⟨hpredicts, sets', hhealthy', hc'⟩
  | release o e =>
    obtain ⟨-, rfl⟩ := heffect
    exact ⟨trivial, _, hhealthy', answers_release hc (howner _ List.mem_cons_self) result⟩
  | usage o now =>
    obtain ⟨hpredicts, hc'⟩ := answers_usage (hc.later now) (hclock now rfl) hexecutions heffect
    exact ⟨hpredicts, sets', hhealthy', hc'⟩
  | sweepOrg o now =>
    obtain rfl := heffect
    exact ⟨trivial, _, hhealthy', (hc.later now).purge (hclock now rfl) (Key.isSlots_orgSlots o)⟩
  | sweepAll now =>
    obtain ⟨keys, hkeys, rfl⟩ := heffect
    exact ⟨trivial, _, hhealthy', ((hc.later now).reclaimAll (hclock now rfl) hkeys).purge
      (hclock now rfl) Key.isSlots_globalSlots⟩
  | setLimit o n =>
    obtain rfl := heffect
    exact ⟨trivial, _, hhealthy', hc⟩
  | deleteLimit o =>
    obtain rfl := heffect
    exact ⟨trivial, _, hhealthy', hc⟩

/-- The owners of the executions of a regular run. -/
theorem Regular.exists_owner {ops : List Operation} (hr : a.Regular ops) :
    ∃ owner : String → String, ∀ q ∈ ops.filterMap Operation.about?, owner q.2 = q.1 := by
  classical
  refine ⟨fun e => if he : ∃ o, (o, e) ∈ ops.filterMap Operation.about? then he.choose else "",
    fun q hq => ?_⟩
  have he : ∃ o, (o, q.2) ∈ ops.filterMap Operation.about? := ⟨q.1, hq⟩
  simp only [dif_pos he]
  exact hr.oneOrg _ he.choose_spec q hq rfl

theorem Regular.tail {ops : List Operation} (hr : a.Regular (op :: ops)) : a.Regular ops := by
  have habout : ∀ q ∈ ops.filterMap Operation.about?,
      q ∈ (op :: ops).filterMap Operation.about? :=
    fun q hq => ((List.sublist_cons_self op ops).filterMap _).mem hq
  have htimes : (ops.filterMap Operation.at?).Sublist ((op :: ops).filterMap Operation.at?) :=
    (List.sublist_cons_self op ops).filterMap _
  exact ⟨fun q hq q' hq' => hr.oneOrg q (habout q hq) q' (habout q' hq'),
    hr.inOrder.sublist htimes, hr.exactScores.sublist htimes⟩

/-- The time of an operation of a regular run is the latest, and tells the slots that count. -/
theorem Regular.clocked (hr : a.Regular (op :: h.ops)) (hnow : op.at? = some now) :
    a.Clocked (h.admitted owner) (now :: h.times) now := by
  have hcons : (op :: h.ops).filterMap Operation.at? = now :: h.times := by
    rw [List.filterMap_cons, hnow]
    rfl
  have hlatest := hr.inOrder
  have hexact := hr.exactScores
  rw [hcons, List.pairwise_cons] at hlatest hexact
  refine ⟨List.mem_cons_self, fun t ht => ?_, fun e t ht => ?_⟩
  · rcases List.mem_cons.mp ht with rfl | ht
    · exact Int.le_refl _
    · exact hlatest.1 t ht
  · exact hexact.1 t (History.mem_of_admittedAt ht).2

theorem Runs.settled (hruns : a.Runs h s) (hr : a.Regular h.ops)
    (howner : ∀ q ∈ h.ops.filterMap Operation.about?, owner q.2 = q.1) :
    a.Settled owner h s := by
  induction hruns with
  | start hentries havailable =>
    exact ⟨_, .of_empty hentries havailable, Coupled.start⟩
  | @next h s op result p hruns hends ih =>
    -- What is regular with the last operation is regular without it.
    have hs : a.Settled owner h s := by
      refine ih hr.tail fun q hq => howner q ?_
      exact ((List.sublist_cons_self op h.ops).filterMap _).mem hq
    have hclock : ∀ now ∈ op.at?, a.Clocked (h.admitted owner) (now :: h.times) now :=
      fun now hnow => hr.clocked hnow
    exact ((hends.of_ensures (answers_program hs howner hclock)).1 result rfl).2

/-- Operations that run one after another on a store without trouble, starting with an empty
    one, answer what the history before them predicts: the occupancy that is reported is the
    number of live executions, and an admission is rejected exactly where that number has
    reached its ceiling. None of them ends without an answer, unless a time to live reaches
    beyond the clock. -/
theorem occupancy (a : Admission) (h : History) (s : Shared) (op : Operation)
    (out : Checked op.Result) (p : Point) (hruns : a.Runs h s)
    (hends : (a.program op).Ends .durable ⟨s, []⟩ out p) (hregular : a.Regular (op :: h.ops)) :
    (∀ result, out = .ok result → a.Predicts h p.log op result) ∧
      ∀ o, out = .error o → a.BeyondClock o p := by
  obtain ⟨owner, howner⟩ := hregular.exists_owner
  have hs : a.Settled owner h s := by
    refine hruns.settled hregular.tail fun q hq => howner q ?_
    exact ((List.sublist_cons_self op h.ops).filterMap _).mem hq
  have hensures := answers_program hs howner fun now hnow => hregular.clocked hnow
  obtain ⟨hok, herror⟩ := hends.of_ensures hensures
  exact ⟨fun result hout => (hok result hout).1, herror⟩

/-- A first execution, admitted to the empty store at the epoch. -/
def firstAdmitted : Checked (Except AdmissionError Decision) × Point :=
  ((withCeilings 1 1).tryAdmitAt ⟨"o", "w", "e", "c"⟩ (.ofMillis 0)).run
    (Point.answer fun _ => none) ⟨{}, []⟩

/-- A second execution after the retention of the first. -/
def secondAdmitted : Checked (Except AdmissionError Decision) × Point :=
  ((withCeilings 1 1).tryAdmitAt ⟨"o", "w", "f", "c"⟩ (.ofMillis 21600000)).run
    (Point.answer fun _ => none) ⟨firstAdmitted.2.shared, []⟩

theorem occupancy_after_retention :
    ∃ s p, (withCeilings 1 1).Runs
        [⟨.tryAdmit ⟨"o", "w", "e", "c"⟩ (.ofMillis 0), .ok (.admitted false)⟩] s ∧
      ((withCeilings 1 1).program (.tryAdmit ⟨"o", "w", "f", "c"⟩ (.ofMillis 21600000))).Ends
        .durable ⟨s, []⟩ (.ok (.ok (.admitted false))) p ∧
      (withCeilings 1 1).Predicts
        [⟨.tryAdmit ⟨"o", "w", "e", "c"⟩ (.ofMillis 0), .ok (.admitted false)⟩] p.log
        (.tryAdmit ⟨"o", "w", "f", "c"⟩ (.ofMillis 21600000)) (.ok (.admitted false)) := by
  have hregular : (withCeilings 1 1).Regular
      [.tryAdmit ⟨"o", "w", "f", "c"⟩ (.ofMillis 21600000),
        .tryAdmit ⟨"o", "w", "e", "c"⟩ (.ofMillis 0)] :=
    ⟨by decide +kernel, by decide +kernel, by decide +kernel⟩
  have hfirst : firstAdmitted.1.toOption.bind Except.toOption = some (.admitted false) := by
    decide +kernel
  have hsecond : secondAdmitted.1.toOption.bind Except.toOption = some (.admitted false) := by
    decide +kernel
  have hends₁ : Program.Ends .durable
      ((withCeilings 1 1).program (.tryAdmit ⟨"o", "w", "e", "c"⟩ (.ofMillis 0))) ⟨{}, []⟩
      firstAdmitted.1 firstAdmitted.2 := Program.ends_run (fun _ _ h => by cases h) _ _
  have hends₂ : Program.Ends .durable
      ((withCeilings 1 1).program (.tryAdmit ⟨"o", "w", "f", "c"⟩ (.ofMillis 21600000)))
      ⟨firstAdmitted.2.shared, []⟩ secondAdmitted.1 secondAdmitted.2 :=
    Program.ends_run (fun _ _ h => by cases h) _ _
  generalize secondAdmitted = r₂ at hends₂ hsecond
  generalize firstAdmitted = r₁ at hends₁ hends₂ hfirst
  rcases r₁ with ⟨o₁ | e₁ | d₁, p₁⟩
  · cases hfirst
  · cases hfirst
  rcases r₂ with ⟨o₂ | e₂ | d₂, p₂⟩
  · cases hsecond
  · cases hsecond
  obtain rfl : d₁ = .admitted false := Option.some.inj hfirst
  obtain rfl : d₂ = .admitted false := Option.some.inj hsecond
  have hruns := Runs.next (.start rfl rfl) hends₁
  exact ⟨p₁.shared, p₂, hruns, hends₂,
    (occupancy _ _ _ _ _ _ hruns hends₂ hregular).1 _ rfl⟩

end Admission

end ExecutionControl
