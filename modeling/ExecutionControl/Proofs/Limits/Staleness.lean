import ExecutionControl.Proofs.KeyFamilies
import ExecutionControl.Proofs.Limits.Changes

/-! # How stale a limit can be

    Operations on limits that run one after another, where every call to a store may fail
    and time passes as it likes. A lookup gives back the limit that the organisation has,
    unless the durable table fails and the default stands in, or the limit was changed and
    the attempt to drop the cached one was lost; then it gives back a limit that the
    organisation had less than one time to live ago (`bounded_staleness`).

    Two invariants carry this. `During` holds at every point of one operation and says what
    it may have changed since it started. `Accounted` holds between the operations: every
    cached limit is one that the organisation had when it was cached, and if it has another
    one by now then some attempt to drop the cached limit was lost in between.
-/

namespace ExecutionControl

/-- An operation that was run, with the services before and after it and what it asked. -/
structure LimitAct where
  op : LimitOperation
  out : Checked op.Result
  before : Shared
  after : Shared
  log : Log

namespace Operator

variable (o : Operator) (orgId : String)

/-- The limit that an organisation has: its durable one, or the default. -/
def effectiveLimit (s : Shared) : Nat :=
  (s.limits.get orgId).elim o.admission.cache.defaultLimit fun row => row.concurrentRequestLimit

/-- No durable limit is zero. -/
def Positive (s : Shared) : Prop :=
  ∀ orgId row, s.limits.get orgId = some row → 0 < row.concurrentRequestLimit

/-- Operations on limits that ran one after another, the latest first, from services where no
    limit is cached. Every call to a store may fail, and time passes before every answer. -/
inductive LimitRuns : List LimitAct → Shared → Prop
  | start {s : Shared} (hcache : ∀ orgId, s.coord.entries[Key.limitCache orgId]? = none)
      (hrows : Positive s) : LimitRuns [] s
  | run {past : List LimitAct} {s : Shared} {op : LimitOperation} {out : Checked op.Result}
      {p : Point} (h : LimitRuns past s)
      (hends : (o.limitProgram op).Ends .any ⟨s, []⟩ out p) :
      LimitRuns (⟨op, out, s, p.shared, p.log⟩ :: past) p.shared

/-- Less than one time to live ago. -/
def Recent (t now : Moment) : Prop := t ≤ now ∧ now < t + o.admission.cache.ttl.nanos

/-- A write changed the limit of an organisation, and its attempt at `t` to drop the cached
    limit failed. -/
structure LostInvalidation (x : LimitAct) (t : Moment) : Prop where
  writes : x.op.Writes orgId
  changed : o.effectiveLimit orgId x.before ≠ o.effectiveLimit orgId x.after
  failed : ∃ e, (⟨t, .coord (.delete (Key.limitCache orgId)), .error e⟩ : Exchange) ∈ x.log

/-- The default stands in for a limit that cannot be read, and nothing was cached. -/
structure StandsIn (s : Shared) (p : Point) (v : Nat) : Prop where
  eq_default : v = o.admission.cache.defaultLimit
  uncached : ∀ (key : String) (e : Entry), p.shared.coord.entries[key]? = some e →
    s.coord.entries[key]? = some e

/-- What a lookup may give back that ran from `s` to `p`. -/
inductive Answers (past : List LimitAct) (s : Shared) (p : Point) (v : Nat) : Prop
  /-- The limit that the organisation has. -/
  | current (hv : v = o.effectiveLimit orgId p.shared)
  /-- Nothing usable was found in the cache and the durable table failed. -/
  | stoodIn {e : StoreError}
      (hmiss : ∀ raw, p.log.Has (.coord (.getText (Key.limitCache orgId))) (.ok (some raw)) →
        LimitCache.cachedLimit? raw = none)
      (hfailed : p.log.Has (.limits (.get orgId)) (.error e)) (hdefault : o.StandsIn s p v)
  /-- An invalidation was lost lately. The organisation had the limit lately. -/
  | stale {x y : LimitAct} {t : Moment} (hx : x ∈ past) (hlost : o.LostInvalidation orgId x t)
      (hrecent : o.Recent t p.shared.now) (hy : y ∈ past)
      (hv : v = o.effectiveLimit orgId y.after) (hthen : o.Recent y.after.now p.shared.now)

/-- What may become of an operation that ran from `s` to `p`. Whenever a lookup has found the
    durable table failing, the default stands in. -/
def MayEnd (past : List LimitAct) (s : Shared) (p : Point) :
    (op : LimitOperation) → Checked op.Result → Prop
  | .get orgId, .ok v => 0 < v ∧ o.Answers orgId past s p v ∧
      ∀ e, p.log.Has (.limits (.get orgId)) (.error e) → o.StandsIn s p v
  | .get _, .error ov =>
    ov = .deadline ∧ Moment.bound ≤ p.shared.now + o.admission.cache.ttl.nanos
  | .set _ n, .ok (.ok _) => 0 < n
  | .set .., .ok (.error _) => p.shared.limits = s.limits ∧ p.shared.coord = s.coord
  | .set .., .error _ => False
  | .delete _, .ok (.ok _) => True
  | .delete _, .ok (.error _) => p.shared.limits = s.limits ∧ p.shared.coord = s.coord
  | .delete _, .error _ => False
  | _, _ => True

variable {o} {orgId}

/-- The limit of a durable row is used as it is, since it is not zero. -/
theorem limitOfRow_eq {s : Shared} (h : Positive s) :
    o.admission.cache.limitOfRow (s.limits.get orgId) = o.effectiveLimit orgId s := by
  unfold LimitCache.limitOfRow effectiveLimit
  cases hrow : s.limits.get orgId with
  | none => rfl
  | some row =>
    have hpos := h orgId row hrow
    simp only [Option.elim_some]
    omega

theorem effectiveLimit_pos {s : Shared} (h : Positive s) : 0 < o.effectiveLimit orgId s := by
  unfold effectiveLimit
  cases hrow : s.limits.get orgId with
  | none => exact o.admission.cache.defaultLimit_pos
  | some row => exact h orgId row hrow

theorem effectiveLimit_congr {s s' : Shared} (h : s'.limits.get orgId = s.limits.get orgId) :
    o.effectiveLimit orgId s' = o.effectiveLimit orgId s := by
  unfold effectiveLimit
  rw [h]

/-! ### One operation -/

/-- What holds at every point of an operation that runs alone from `s`. -/
structure During (o : Operator) (op : LimitOperation) (s : Shared) (p : Point) : Prop where
  now_le : s.now ≤ p.shared.now
  times : ∀ x ∈ p.log, s.now ≤ x.time ∧ x.time ≤ p.shared.now
  fresh : p.log = [] → p.shared.limits = s.limits ∧ p.shared.coord = s.coord
  /-- A first call to a durable table that fails changes nothing. -/
  refused : ∀ t call e, p.log = [⟨t, .limits call, .error e⟩] →
    p.shared.limits = s.limits ∧ p.shared.coord = s.coord
  row : ∀ orgId, p.shared.limits.get orgId = s.limits.get orgId ∨ op.Writes orgId
  positive : Positive p.shared
  read : ∀ orgId row, p.log.Has (.limits (.get orgId)) (.ok row) → ¬ op.Writes orgId →
    row = p.shared.limits.get orgId
  dropped : ∀ t key existed past, p.log = ⟨t, .coord (.delete key), .ok existed⟩ :: past →
    p.shared.coord.entries[key]? = none
  written : ∀ orgId n row, p.log.Has (.limits (.upsert orgId n)) (.ok row) → 0 < n
  /-- An entry was there before, or it was just cached. -/
  cached : ∀ (key : String) (e : Entry), p.shared.coord.entries[key]? = some e →
    s.coord.entries[key]? = some e ∨ ¬ LimitOperation.Uncached p.log ∧ ∃ orgId,
      op = .get orgId ∧ key = Key.limitCache orgId ∧
        e = ⟨.text (toString (o.admission.cache.limitOfRow (p.shared.limits.get orgId))),
          some (p.shared.now + o.admission.cache.ttl.nanos)⟩

/-- A text that was asked for first, and nothing since, is there. -/
def SeesText (p : Point) : Prop :=
  ∀ t key raw, p.log = [⟨t, .coord (.getText key), .ok (some raw)⟩] →
    p.shared.coord.datum? p.shared.now key = some (.text raw)

variable {op : LimitOperation} {s s' : Shared} {p : Point} {r : Request}

theorem seesText_asked {F : Faults} {reply : r.Reply} (hs : p.shared.Serves F r (.ok reply) s') :
    SeesText (p.asked s' r reply) := by
  intro t key raw hlog
  obtain ⟨hx, -⟩ := List.cons.inj hlog
  cases hx
  exact hs.getText

theorem During.nil (h : Positive s) : o.During op s ⟨s, []⟩ where
  now_le := Nat.le_refl _
  times _ hx := nomatch hx
  fresh _ := ⟨rfl, rfl⟩
  refused _ _ _ hlog := nomatch hlog
  row _ := .inl rfl
  positive := h
  read _ _ hhas := nomatch hhas
  dropped _ _ _ _ hlog := nomatch hlog
  written := by rintro orgId n row ⟨t, ht⟩; cases ht
  cached _ _ he := .inl he

/-- Where nothing was cached so far, every entry was there before. -/
theorem During.entry_before (h : o.During op s p) (hlog : LimitOperation.Uncached p.log)
    {key : String} {e : Entry} (he : p.shared.coord.entries[key]? = some e) :
    s.coord.entries[key]? = some e := by
  rcases h.cached key e he with hbefore | ⟨hcached, -⟩
  · exact hbefore
  · exact absurd hlog hcached

/-- A write leaves no durable limit of zero behind. -/
theorem Positive.serves {F : Faults} {reply : r.Reply} (h : Positive s)
    (hs : s.Serves F r (.ok reply) s') : Positive s' := by
  intro orgId row hrow
  rcases hs.row_eq_or 0 orgId with hsame | hwritten
  · exact h orgId row (hsame ▸ hrow)
  · cases hwritten with
    | upsert hx =>
      cases hx
      obtain ⟨hpos, hget, hlimit⟩ := hs.limits_upsert
      rw [hget] at hrow
      cases hrow
      exact hlimit ▸ hpos
    | delete hx =>
      cases hx
      rw [hs.limits_delete] at hrow
      cases hrow

theorem During.asked {reply : r.Reply} (h : o.During op s p)
    (hr : op.Permits o.admission.cache p.log r) (hs : p.shared.Serves .any r (.ok reply) s') :
    o.During op s (p.asked s' r reply) := by
  have hsame : ∀ orgId, ¬ op.Writes orgId →
      s'.limits.get orgId = p.shared.limits.get orgId := by
    intro orgId hnot
    rcases hs.row_eq_or 0 orgId with hsame | hwritten
    · exact hsame
    · exact absurd (LimitOperation.Permits.writes hr hwritten) hnot
  constructor
  case now_le => exact Nat.le_trans h.now_le hs.now_le
  case times =>
    intro x hx
    rcases List.mem_cons.mp hx with rfl | hx
    · exact ⟨Nat.le_trans h.now_le hs.now_le, Nat.le_refl _⟩
    · obtain ⟨hfrom, huntil⟩ := h.times x hx
      exact ⟨hfrom, Nat.le_trans huntil hs.now_le⟩
  case fresh => exact nofun
  case refused =>
    intro t call e hlog
    obtain ⟨hx, hnil⟩ := List.cons.inj hlog
    cases hx
    obtain ⟨hlimits, hcoord⟩ := h.fresh hnil
    exact ⟨hs.limits_error.trans hlimits, (hs.coord_eq nofun).trans hcoord⟩
  case row =>
    intro orgId
    by_cases hwrites : op.Writes orgId
    · exact .inr hwrites
    · exact .inl ((hsame orgId hwrites).trans ((h.row orgId).resolve_right hwrites))
  case positive => exact h.positive.serves hs
  case read =>
    intro orgId row hhas hnot
    rcases Log.has_cons hhas with heq | hbefore
    · cases heq
      exact hs.limits_get
    · exact (h.read orgId row hbefore hnot).trans (hsame orgId hnot).symm
  case dropped =>
    intro t key existed past hlog
    obtain ⟨hx, -⟩ := List.cons.inj hlog
    cases hx
    exact hs.delete
  case written =>
    intro orgId n row hhas
    rcases Log.has_cons hhas with heq | hbefore
    · cases heq
      exact hs.limits_upsert.1
    · exact h.written orgId n row hbefore
  case cached =>
    intro key e he
    rcases hs.entry_cases hr key with hkeep | hgone | ⟨value, rfl, hput⟩
    · -- Nothing was cached before this request, for otherwise it would not be made.
      exact .inl (h.entry_before hr.1 (hkeep ▸ he))
    · rw [show (p.asked s' r reply).shared = s' from rfl, hgone] at he
      cases he
    · obtain ⟨-, orgId, row, rfl, rfl, -, hhas, rfl⟩ := hr
      rw [show (p.asked s' _ reply).shared = s' from rfl, hput] at he
      cases he
      refine .inr ⟨fun hlog => ?_, orgId, rfl, rfl, ?_⟩
      · exact absurd (hlog _ List.mem_cons_self) (by simp [Request.caches])
      · rw [h.read orgId row hhas id, ← hsame orgId id]
        rfl

/-- A request that overflows changes nothing but the time. -/
theorem During.stopped {ov : Overflow} (h : o.During op s p)
    (hr : op.Permits o.admission.cache p.log r) (hs : p.shared.Serves .any r (.error ov) s') :
    o.During op s (p.stopped s') := by
  obtain ⟨hcoord, hlimits⟩ := hs.stopped_limits
  have huncached : ∀ (key : String) (e : Entry), s'.coord.entries[key]? = some e →
      s.coord.entries[key]? = some e := by
    intro key e he
    rw [hcoord] at he
    exact h.entry_before hr.1 he
  constructor
  case now_le => exact Nat.le_trans h.now_le hs.now_le
  case times =>
    intro x hx
    obtain ⟨hfrom, huntil⟩ := h.times x hx
    exact ⟨hfrom, Nat.le_trans huntil hs.now_le⟩
  case fresh =>
    intro hlog
    obtain ⟨hlimits', hcoord'⟩ := h.fresh hlog
    exact ⟨hlimits.trans hlimits', hcoord.trans hcoord'⟩
  case refused =>
    intro t call e hlog
    obtain ⟨hlimits', hcoord'⟩ := h.refused t call e hlog
    exact ⟨hlimits.trans hlimits', hcoord.trans hcoord'⟩
  case row =>
    intro orgId
    rw [show (p.stopped s').shared.limits = p.shared.limits from hlimits]
    exact h.row orgId
  case positive =>
    intro orgId row hrow
    rw [show (p.stopped s').shared.limits = p.shared.limits from hlimits] at hrow
    exact h.positive orgId row hrow
  case read =>
    intro orgId row hhas hnot
    rw [show (p.stopped s').shared.limits = p.shared.limits from hlimits]
    exact h.read orgId row hhas hnot
  case dropped =>
    intro t key existed past hlog
    rw [show (p.stopped s').shared.coord = p.shared.coord from hcoord]
    exact h.dropped t key existed past hlog
  case written => exact h.written
  case cached =>
    intro key e he
    rw [show (p.stopped s').shared.coord = p.shared.coord from hcoord] at he
    exact .inl (h.entry_before hr.1 he)

/-- An operation that runs alone. If it overflows, it is a lookup that was about to cache
    what it had read. -/
theorem During.ends {out : Checked op.Result} (hs : Positive s)
    (hends : (o.limitProgram op).Ends .any ⟨s, []⟩ out p) :
    o.During op s p ∧
      (∀ result, out = .ok result → SeesText p ∧ op.Ended o.admission.cache result p.log) ∧
      ∀ ov, out = .error ov → (∃ orgId, op = .get orgId) ∧ ov = .deadline ∧
        Moment.bound ≤ p.shared.now + o.admission.cache.ttl.nanos := by
  have hkeeps : (o.limitProgram op).ensures (o.watchingLimits op)
      (op.Ended o.admission.cache) [] := limits_endsAs op
  have hends' := Discipline.ends_watching hends hkeeps
    (I := fun p => o.During op s p ∧ SeesText p)
    (J := fun ov p => o.During op s p ∧ (∃ orgId, op = .get orgId) ∧ ov = .deadline ∧
      Moment.bound ≤ p.shared.now + o.admission.cache.ttl.nanos)
    ⟨.nil hs, fun _ _ _ hlog => nomatch hlog⟩
    (fun p r reply s' h hr hserves => ⟨h.1.asked hr hserves, seesText_asked hserves⟩)
    (fun p r ov s' h hr hserves => by
      obtain ⟨hdeadline, hbound, hcaches⟩ := hserves.overflow_cases hr
      refine ⟨h.1.stopped hr hserves, ?_, hdeadline, hbound⟩
      -- Only a lookup caches.
      unfold Request.caches at hcaches
      split at hcaches
      · obtain ⟨-, orgId, -, hop, -⟩ := hr
        exact ⟨orgId, hop⟩
      · cases hcaches)
  cases out with
  | ok result =>
    obtain ⟨⟨hduring, hsees⟩, hended⟩ := hends'.1 result rfl
    refine ⟨hduring, fun result' hresult => ?_, nofun⟩
    cases hresult
    exact ⟨hsees, hended⟩
  | error ov =>
    obtain ⟨hduring, hlast⟩ := hends'.2 ov rfl
    refine ⟨hduring, nofun, fun ov' hov => ?_⟩
    cases hov
    exact hlast

/-! ### Histories -/

/-- A cached limit, beside a history: the organisation had it at some point, and it is used
    for one time to live from then on at most. If the organisation has another one by now,
    then an invalidation was lost. -/
inductive Justified (o : Operator) (orgId : String) (past : List LimitAct) (s : Shared)
    (e : Entry) : Prop
  | mk {y : LimitAct} {d : Moment} (hy : y ∈ past)
      (hdatum : e.datum = .text (toString (o.effectiveLimit orgId y.after)))
      (hdeadline : e.deadline = some d) (hd : d ≤ y.after.now + o.admission.cache.ttl.nanos)
      (hchanged : o.effectiveLimit orgId y.after = o.effectiveLimit orgId s ∨
        ∃ x ∈ past, ∃ t, o.LostInvalidation orgId x t ∧ d ≤ t + o.admission.cache.ttl.nanos)

/-- Every cached limit is accounted for. -/
structure Accounted (o : Operator) (past : List LimitAct) (s : Shared) : Prop where
  positive : Positive s
  after_le : ∀ x ∈ past, x.after.now ≤ s.now
  times : ∀ x ∈ past, ∀ z ∈ x.log, z.time ≤ s.now
  cached : ∀ orgId e, s.coord.entries[Key.limitCache orgId]? = some e →
    o.Justified orgId past s e

variable {past : List LimitAct}

/-- The write of a limit that keeps the cached limit has lost its invalidation. -/
theorem During.exists_failed {result : op.Result} (h : o.During op s p)
    (hended : op.Ended o.admission.cache result p.log)
    (hchanged : o.effectiveLimit orgId s ≠ o.effectiveLimit orgId p.shared) {e : Entry}
    (he : p.shared.coord.entries[Key.limitCache orgId]? = some e) :
    ∃ t e, (⟨t, .coord (.delete (Key.limitCache orgId)), .error e⟩ : Exchange) ∈ p.log := by
  have hwrites : op.Writes orgId := by
    rcases h.row orgId with hsame | hwrites
    · exact absurd (effectiveLimit_congr hsame).symm hchanged
    · exact hwrites
  have hfailed : LimitOperation.Dropped orgId p.log →
      ∃ t e, (⟨t, .coord (.delete (Key.limitCache orgId)), .error e⟩ : Exchange) ∈ p.log := by
    rintro (⟨t, existed, past, hlog⟩ | ⟨e, t, hmem⟩)
    · rw [h.dropped t _ existed past hlog] at he
      cases he
    · exact ⟨t, e, hmem⟩
  -- A write that was refused has changed nothing.
  have hrefused : ∀ t call e, p.log = [⟨t, .limits call, .error e⟩] → False := by
    intro t call e hlog
    refine hchanged (effectiveLimit_congr ?_).symm
    rw [(h.refused t call e hlog).1]
  cases op with
  | set org n =>
    obtain rfl : org = orgId := hwrites
    cases result with
    | error e =>
      obtain ⟨t, hlog⟩ := hended
      exact (hrefused t _ e hlog).elim
    | ok row => exact hfailed hended.2
  | delete org =>
    obtain rfl : org = orgId := hwrites
    cases result with
    | error e =>
      obtain ⟨t, hlog⟩ := hended
      exact (hrefused t _ e hlog).elim
    | ok existed => exact hfailed hended.2
  | _ => exact hwrites.elim

theorem Accounted.run {out : Checked op.Result} (h : o.Accounted past s)
    (hends : (o.limitProgram op).Ends .any ⟨s, []⟩ out p) :
    o.Accounted (⟨op, out, s, p.shared, p.log⟩ :: past) p.shared := by
  obtain ⟨hduring, hended, hstopped⟩ := During.ends h.positive hends
  refine ⟨hduring.positive, ?_, ?_, ?_⟩
  · intro x hx
    rcases List.mem_cons.mp hx with rfl | hx
    · exact Nat.le_refl _
    · exact Nat.le_trans (h.after_le x hx) hduring.now_le
  · intro x hx z hz
    rcases List.mem_cons.mp hx with rfl | hx
    · exact (hduring.times z hz).2
    · exact Nat.le_trans (h.times x hx z hz) hduring.now_le
  · intro orgId e he
    rcases hduring.cached _ e he with hbefore | ⟨-, org, rfl, hkey, rfl⟩
    · obtain ⟨hy, hdatum, hdeadline, hd, hchanged⟩ := h.cached orgId e hbefore
      refine ⟨List.mem_cons_of_mem _ hy, hdatum, hdeadline, hd, ?_⟩
      by_cases hsame : o.effectiveLimit orgId s = o.effectiveLimit orgId p.shared
      · rw [← hsame]
        refine hchanged.imp_right ?_
        rintro ⟨x, hx, hlost⟩
        exact ⟨x, List.mem_cons_of_mem _ hx, hlost⟩
      · -- This operation has changed the limit, and the entry has survived it.
        right
        have hwrites := (hduring.row orgId).resolve_left fun hrow =>
          hsame (effectiveLimit_congr hrow).symm
        cases out with
        | error ov =>
          obtain ⟨⟨org, rfl⟩, -⟩ := hstopped ov rfl
          exact hwrites.elim
        | ok result =>
          obtain ⟨t, e, hmem⟩ := hduring.exists_failed (hended result rfl).2 hsame he
          refine ⟨_, List.mem_cons_self, t, ⟨hwrites, hsame, e, hmem⟩, ?_⟩
          have hfrom := (hduring.times _ hmem).1
          have hbefore := h.after_le _ hy
          exact Nat.le_trans hd (Nat.add_le_add_right (Nat.le_trans hbefore hfrom) _)
    · -- The limit was just cached.
      obtain rfl := Key.limitCache_injective hkey
      exact ⟨List.mem_cons_self, congrArg (fun n => Datum.text (toString n))
        (limitOfRow_eq hduring.positive), rfl, Nat.le_refl _, .inl rfl⟩

theorem LimitRuns.accounted (h : o.LimitRuns past s) : o.Accounted past s := by
  induction h with
  | start hcache hrows =>
    constructor
    case positive => exact hrows
    case after_le => intro x hx; cases hx
    case times => intro x hx; cases hx
    case cached =>
      intro orgId e he
      rw [hcache orgId] at he
      cases he
  | run _ hends ih => exact ih.run hends

/-- A cached limit that is used. -/
theorem Accounted.answers_hit {raw : String} {v : Nat} (h : o.Accounted past s)
    (hrow : o.effectiveLimit orgId p.shared = o.effectiveLimit orgId s)
    (hnow : s.now ≤ p.shared.now)
    (hbefore : ∀ e, p.shared.coord.entries[Key.limitCache orgId]? = some e →
      s.coord.entries[Key.limitCache orgId]? = some e)
    (hdatum : p.shared.coord.datum? p.shared.now (Key.limitCache orgId) = some (.text raw))
    (hraw : LimitCache.cachedLimit? raw = some v) : o.Answers orgId past s p v := by
  unfold CoordStore.datum? at hdatum
  obtain ⟨e, hlive, htext⟩ := Option.map_eq_some_iff.mp hdatum
  obtain ⟨he, hfresh⟩ := CoordStore.live?_eq_some.mp hlive
  obtain ⟨hy, hcached, hdeadline, hd, hchanged⟩ := h.cached orgId e (hbefore e he)
  rw [htext] at hcached
  obtain rfl := Datum.text.inj hcached
  have hv := LimitCache.eq_of_cachedLimit?_toString hraw
  rcases hchanged with hsame | ⟨x, hx, t, hlost, ht⟩
  · exact .current (hv.trans (hsame.trans hrow.symm))
  · simp only [Entry.isLive, hdeadline, decide_eq_true_eq] at hfresh
    obtain ⟨e', hmem⟩ := hlost.failed
    refine .stale hx hlost ⟨?_, Nat.lt_of_lt_of_le hfresh ht⟩ hy hv
      ⟨?_, Nat.lt_of_lt_of_le hfresh hd⟩
    · exact Nat.le_trans (h.times x hx _ hmem) hnow
    · exact Nat.le_trans (h.after_le _ hy) hnow

/-- After any operations on limits, and whichever calls to the stores fail, a lookup gives
    back a limit of at least one that is current, stands in, or was current less than one
    time to live ago. The default always stands in where a lookup finds the durable table
    failing. A write that fails changes nothing. -/
theorem bounded_staleness {out : Checked op.Result} (h : o.LimitRuns past s)
    (hends : (o.limitProgram op).Ends .any ⟨s, []⟩ out p) : o.MayEnd past s p op out := by
  have haccounted := h.accounted
  obtain ⟨hduring, hended, hstopped⟩ := During.ends haccounted.positive hends
  cases op with
  | get orgId =>
    cases out with
    | error ov => exact (hstopped ov rfl).2
    | ok v =>
      obtain ⟨hsees, hlooked⟩ := hended v rfl
      have hrow : o.effectiveLimit orgId p.shared = o.effectiveLimit orgId s :=
        effectiveLimit_congr ((hduring.row orgId).resolve_right id)
      cases hlooked with
      | @hit t raw hraw hlog =>
        have huncached : LimitOperation.Uncached p.log := by
          simp [LimitOperation.Uncached, hlog, Request.caches]
        refine ⟨LimitCache.cachedLimit?_pos hraw, haccounted.answers_hit hrow hduring.now_le
          (fun e he => hduring.entry_before huncached he) (hsees t _ raw hlog) hraw, ?_⟩
        -- The durable table was not asked.
        intro e hfailed
        obtain ⟨t', hmem⟩ := hfailed
        rw [hlog] at hmem
        cases List.mem_singleton.mp hmem
      | read hhas hanswered hv =>
        rw [hduring.read orgId _ hhas id, limitOfRow_eq hduring.positive] at hv
        exact ⟨hv ▸ effectiveLimit_pos hduring.positive, .current hv,
          fun e hfailed => absurd hfailed (hanswered e)⟩
      | stoodIn hfailed hmiss hlog hv =>
        have hdefault : o.StandsIn s p v := ⟨hv, fun key e he => hduring.entry_before hlog he⟩
        exact ⟨hv ▸ o.admission.cache.defaultLimit_pos, .stoodIn hmiss hfailed hdefault,
          fun e _ => hdefault⟩
  | set orgId n =>
    cases out with
    | error ov =>
      obtain ⟨⟨org, hop⟩, -⟩ := hstopped ov rfl
      cases hop
    | ok result =>
      obtain ⟨-, hset⟩ := hended result rfl
      cases result with
      | ok row => exact hduring.written orgId n row hset.1
      | error e =>
        obtain ⟨t, hlog⟩ := hset
        exact hduring.refused t _ e hlog
  | delete orgId =>
    cases out with
    | error ov =>
      obtain ⟨⟨org, hop⟩, -⟩ := hstopped ov rfl
      cases hop
    | ok result =>
      obtain ⟨-, hdelete⟩ := hended result rfl
      cases result with
      | ok row => trivial
      | error e =>
        obtain ⟨t, hlog⟩ := hdelete
        exact hduring.refused t _ e hlog
  | _ => cases out <;> trivial

/-- A lookup that caches the default limit. -/
def cachingLookup : Checked Nat × Point :=
  (withTwenty.limitProgram (.get "o")).run (Point.answer fun _ => none) ⟨{}, []⟩

/-- A write that cannot drop the cached limit. -/
def losingWrite : Checked (Except StoreError OrgLimit) × Point :=
  (withTwenty.limitProgram (.set "o" 5)).run
    (Point.answer fun
      | .delete _ => some (.unavailable "connection refused")
      | _ => none) ⟨cachingLookup.2.shared, []⟩

/-- A lookup after that. -/
def misledLookup : Checked Nat × Point :=
  (withTwenty.limitProgram (.get "o")).run (Point.answer fun _ => none)
    ⟨losingWrite.2.shared, []⟩

theorem bounded_staleness_lost :
    ∃ past s p, withTwenty.LimitRuns past s ∧
      (withTwenty.limitProgram (.get "o")).Ends .any ⟨s, []⟩ (.ok 20) p ∧
      withTwenty.effectiveLimit "o" p.shared = 5 ∧
      withTwenty.MayEnd past s p (.get "o") (.ok 20) := by
  have hchecks : misledLookup.1.toOption = some 20 ∧
      withTwenty.effectiveLimit "o" misledLookup.2.shared = 5 := by decide +kernel
  have hends₁ : (withTwenty.limitProgram (.get "o")).Ends .any ⟨{}, []⟩
      cachingLookup.1 cachingLookup.2 := Program.ends_run (fun _ _ _ => trivial) _ _
  have hends₂ : (withTwenty.limitProgram (.set "o" 5)).Ends .any ⟨cachingLookup.2.shared, []⟩
      losingWrite.1 losingWrite.2 := Program.ends_run (fun _ _ _ => trivial) _ _
  have hends₃ : (withTwenty.limitProgram (.get "o")).Ends .any ⟨losingWrite.2.shared, []⟩
      misledLookup.1 misledLookup.2 := Program.ends_run (fun _ _ _ => trivial) _ _
  generalize misledLookup = last at hchecks hends₃
  obtain ⟨out, p⟩ := last
  obtain ⟨hout, heffective⟩ := hchecks
  cases out with
  | error ov => cases hout
  | ok v =>
    obtain rfl : v = 20 := Option.some.inj hout
    have hpositive : Positive ({} : Shared) := by
      intro orgId row hrow
      cases hrow
    have hruns := LimitRuns.run (.run (.start (fun _ => rfl) hpositive) hends₁) hends₂
    exact ⟨_, _, p, hruns, hends₃, heffective, bounded_staleness hruns hends₃⟩

end Operator

end ExecutionControl
