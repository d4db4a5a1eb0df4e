import ExecutionControl.Proofs.Admission.Ceiling
import ExecutionControl.Proofs.SetChanges

/-! # The course of an admission

    What an admission has done to the sorted sets, and which of its requests have failed,
    from its start up to any of its requests, when it runs alone. Every call may fail at
    every point.

    `Course` holds at every point between two requests; each part of an admission has one
    lemma that carries it over (`ensures_purge`, `Course.lookUp`, ...). `Outcome` is what
    holds once the check is over, and stays so while the lock is given back.
-/

namespace ExecutionControl

/-! ### What a log shows -/

/-- Whether a request failed. -/
def Exchange.failed : Exchange → Bool
  | ⟨_, .coord _, .error _⟩ => true
  | ⟨_, .limits _, .error _⟩ => true
  | ⟨_, .files _, .error _⟩ => true
  | _ => false

/-- Whether an admission cannot do without a request: it takes the lock, reclaims stale
    slots, counts slots or takes one. -/
def Request.isVital : Request → Bool
  | .coord (.tryLock ..) => true
  | .coord (.removeScores ..) => true
  | .coord (.cardinality ..) => true
  | .coord (.addMember ..) => true
  | _ => false

/-- Whether a request failed that an admission cannot do without. -/
def Exchange.failsVitally (x : Exchange) : Bool := x.request.isVital && x.failed

/-- Whether a lock could not be given back. -/
def Exchange.failsUnlock : Exchange → Bool
  | ⟨_, .coord (.unlock ..), .error _⟩ => true
  | _ => false

/-- The token that a request drew. -/
def Exchange.token? : Exchange → Option String
  | ⟨_, .token, token⟩ => some token
  | _ => none

/-- The tokens that were drawn. -/
def Log.tokens (log : Log) : List String := log.filterMap Exchange.token?

theorem Log.tokens_cons_of_ne {log : Log} {t : Moment} {r : Request} {reply : r.Reply}
    (hr : r ≠ .token) : Log.tokens (⟨t, r, reply⟩ :: log) = log.tokens := by
  unfold Log.tokens
  rw [List.filterMap_cons]
  cases r with
  | token => exact absurd rfl hr
  | _ => rfl

/-! ### Slots of an execution -/

/-- The slots that an execution takes at a time, in the sets under some keys. -/
def ExecutionContext.slotsIn (c : ExecutionContext) (now : Timestamp) (keys : List String)
    (key member : String) (score : Float) : Prop :=
  key ∈ keys ∧ member = c.executionId ∧ score = now.score

namespace Admission

/-- The keys of the slots of an execution. -/
abbrev slotKeys (c : ExecutionContext) : List String := [Key.orgSlots c.orgId, Key.globalSlots]

theorem isSlots_of_mem_slotKeys {c : ExecutionContext} {key : String} (h : key ∈ slotKeys c) :
    Key.IsSlots key := by
  rcases List.mem_cons.mp h with rfl | h
  · exact Key.isSlots_orgSlots c.orgId
  · rw [List.mem_singleton.mp h]
    exact Key.isSlots_globalSlots

/-! ### Up to a request -/

/-- An admission at `now` that started at `s` and has drawn `token`, up to some point:
    slots that count are still there, with scores in `Left`; the slots in `New` may have
    been taken; and whether a vital request has failed. -/
structure Course (a : Admission) (now : Timestamp) (token : String) (s : Shared)
    (failed : Bool) (Left : Float → Prop) (New : String → String → Float → Prop) (p : Point) :
    Prop where
  evolves : Evolves (· > a.cutoff now) Left New s p.shared
  failed_eq : p.log.any Exchange.failsVitally = failed
  tokens : p.log.tokens = [token]

/-- Where an overflow ends an operation: a span reaches beyond the clock. A wait goes on for
    more rounds than the clock has readings only if there is no time between two attempts. -/
inductive BeyondClock (a : Admission) : Overflow → Point → Prop
  | lockTtl {p : Point} : Moment.bound ≤ p.shared.now + a.config.lockTtl.nanos →
    BeyondClock a .deadline p
  | lockWait {p : Point} : Moment.bound ≤ p.shared.now + a.config.lockWait.nanos →
    BeyondClock a .deadline p
  | cacheTtl {p : Point} : Moment.bound ≤ p.shared.now + a.cache.ttl.nanos →
    BeyondClock a .deadline p
  | endless {p : Point} : a.config.lockPollInterval.nanos = 0 → BeyondClock a .endless p

/-- The deadline of the wait for a lock is set, unless it lies beyond the clock. -/
theorem ensures_lockDeadline {a : Admission} {F : Faults} {start : Moment} {p : Point}
    {Q : Moment → Point → Prop} (hstart : start ≤ p.shared.now)
    (hQ : ∀ deadline, deadline < Moment.bound → Q deadline p) :
    (Program.ofChecked (start.after a.config.lockWait)).ensures (serving F a.BeyondClock) Q p := by
  apply Program.ensures_ofChecked
  case hok => exact fun deadline hdeadline => hQ deadline (Moment.lt_bound_of_after hdeadline)
  case herror =>
    intro o ho
    obtain ⟨rfl, hbound⟩ := Moment.after_eq_error ho
    apply serving_stop
    intro s' hnow _
    exact .lockWait (Nat.le_trans hbound (Nat.add_le_add_right (Nat.le_trans hstart hnow) _))

variable {a : Admission} {c : ExecutionContext} {now : Timestamp} {token key : String}
  {s s' : Shared} {failed failed' : Bool} {Left Left' : Float → Prop}
  {New New' : String → String → Float → Prop} {p : Point}

theorem Course.asked {r : Request} {reply : r.Reply}
    (h : a.Course now token s failed Left New p) (hr : r ≠ .token)
    (hfailed : (Exchange.failsVitally ⟨s'.now, r, reply⟩ || failed) = failed')
    (hNew : ∀ key member score, New key member score → New' key member score)
    (he : Evolves Left Left' New' p.shared s') :
    a.Course now token s failed' Left' New' (p.asked s' r reply) where
  evolves := (h.evolves.mono (fun _ h => h) (fun _ h => h) hNew).trans he
  failed_eq := by
    show (_ :: p.log).any _ = _
    rw [List.any_cons, h.failed_eq]
    exact hfailed
  tokens := by
    show Log.tokens (_ :: p.log) = _
    rw [Log.tokens_cons_of_ne hr, h.tokens]

/-- A request that leaves the store alone. -/
theorem Course.idle {r : Request} {reply : r.Reply} (h : a.Course now token s failed Left New p)
    (hr : r ≠ .token)
    (hfailed : (Exchange.failsVitally ⟨s'.now, r, reply⟩ || failed) = failed')
    (hnow : p.shared.now ≤ s'.now) (hcoord : s'.coord = p.shared.coord) :
    a.Course now token s failed' Left New (p.asked s' r reply) :=
  h.asked hr hfailed (fun _ _ _ h => h) (.of_coord_eq hnow hcoord)

/-! ### Stale slots -/

/-- The slots that are reclaimed are stale. -/
theorem ensures_purge {Q : Nat → Point → Prop} {E : CoordError → Point → Prop}
    (h : a.Course now token s false (· > a.cutoff now) New p)
    (hQ : ∀ n p', a.Course now token s false (· > a.cutoff now) New p' → Q n p')
    (hE : ∀ e p', a.Course now token s true (· > a.cutoff now) New p' → E e p') :
    Coord.ensures (serving .any a.BeyondClock) Q E (a.purge key now) p := by
  unfold purge
  -- The call fails of itself, or the store answers with an error: nothing changes then.
  refine serving_coord (fun reply s' hnow hp => ?_) (fun e s' hnow hcoord _ => ?_) ?_
  · rcases CoordStore.perform_removeScores hp with ⟨⟨e, rfl⟩, hcoord⟩ | ⟨⟨n, rfl⟩, hcoord⟩
    · exact hE e _ (h.idle (by simp) rfl hnow hcoord)
    · exact hQ n _ (h.asked (by simp) rfl (fun _ _ _ h => h) (.of_removeScores hnow hcoord))
  · exact hE e _ (h.idle (by simp) rfl hnow hcoord)
  · intro o s' _ _ hp
    cases hp

/-- A count leaves all slots as they are. -/
theorem ensures_count {Q : Nat → Point → Prop} {E : CoordError → Point → Prop}
    (h : a.Course now token s false Left New p)
    (hQ : ∀ n p', a.Course now token s false Left New p' → Q n p')
    (hE : ∀ e p', a.Course now token s true Left New p' → E e p') :
    Coord.ensures (serving .any a.BeyondClock) Q E (Coord.call (.cardinality key)) p := by
  refine serving_coord (fun reply s' hnow hp => ?_) (fun e s' hnow hcoord _ => ?_) ?_
  · have hcoord := (CoordStore.perform_cardinality hp).1
    cases reply with
    | ok n => exact hQ n _ (h.idle (by simp) rfl hnow hcoord)
    | error e => exact hE e _ (h.idle (by simp) rfl hnow hcoord)
  · exact hE e _ (h.idle (by simp) rfl hnow hcoord)
  · intro o s' _ _ hp
    cases hp

/-- A slot that is taken is there, beside all others. -/
theorem ensures_addMember {member : String} {score : Float} {Q : Bool → Point → Prop}
    {E : CoordError → Point → Prop} (h : a.Course now token s false Left New p)
    (hNew : ∀ key member score, New key member score → New' key member score)
    (hadded : New' key member score)
    (hQ : ∀ new p', a.Course now token s false (fun _ => True) New' p' →
      (∀ P : Float → Prop, P score → Evolves P P New' p.shared p'.shared) →
      (p'.shared.members key)[member]? = some score → Q new p')
    (hE : ∀ e p', a.Course now token s true Left New p' → E e p') :
    Coord.ensures (serving .any a.BeyondClock) Q E (Coord.call (.addMember key member score))
      p := by
  refine serving_coord (fun reply s' hnow hp => ?_) (fun e s' hnow hcoord _ => ?_) ?_
  · rcases CoordStore.perform_addMember hp with ⟨⟨e, rfl⟩, hcoord⟩ | ⟨⟨new, rfl⟩, hcoord⟩
    · exact hE e _ (h.idle (by simp) rfl hnow hcoord)
    -- The set is what it was with one slot more, whichever slots `P` looks at.
    · have hevolves : ∀ P : Float → Prop, P score → Evolves P P New' p.shared s' := by
        intro P hP
        refine (Evolves.of_addMember hP hnow hcoord).mono (fun _ h => h) (fun _ h => h) ?_
        rintro _ _ _ ⟨rfl, rfl, rfl⟩
        exact hadded
      refine hQ new _ ?_ hevolves ?_
      · have he : Evolves Left (fun _ => True) New' p.shared s' :=
          (hevolves (fun _ => True) trivial).mono (fun _ _ => trivial) (fun _ h => h)
            (fun _ _ _ h => h)
        exact h.asked (by simp) rfl hNew he
      · show (s'.coord.slots s'.now key)[member]? = some score
        rw [hcoord, CoordStore.slots_putMembers CoordStore.lasts_self,
          Std.ExtTreeMap.getElem?_insert_self]
  · exact hE e _ (h.idle (by simp) rfl hnow hcoord)
  · intro o s' _ _ hp
    cases hp

/-! ### The ceiling -/

/-- Looking up the ceiling leaves all slots as they are, whatever fails. -/
theorem Course.lookUp {o : String} {p' : Point} (h : a.Course now token s failed Left New p)
    (hl : LooksUp o p p') : a.Course now token s failed Left New p' := by
  obtain ⟨more, hlog, hmore⟩ := hl.asked
  -- No request of a look-up is vital, and none draws a token.
  have hlookUp : ∀ x ∈ more, x.failsVitally = false ∧ x.token? = none := by
    intro x hx
    have hr := hmore x hx
    obtain ⟨t, r, reply⟩ := x
    cases r with
    | coord call => cases call <;> first | exact ⟨rfl, rfl⟩ | cases hr
    | limits call => exact ⟨rfl, rfl⟩
    | report event => exact ⟨rfl, rfl⟩
    | _ => cases hr
  constructor
  case evolves =>
    refine h.evolves.trans ?_
    rcases hl.cached with hsame | ⟨hbefore, hafter⟩
    · exact .of_coord_eq hl.now_le hsame
    · exact .of_write_text (Key.not_isSlots_limitCache o) hl.now_le hl.entries hbefore hafter
  case failed_eq =>
    have hnone : more.any Exchange.failsVitally = false := by
      rw [List.any_eq_false]
      intro x hx
      rw [(hlookUp x hx).1]
      exact Bool.false_ne_true
    rw [hlog, List.any_append, hnone, Bool.false_or, h.failed_eq]
  case tokens =>
    have hnone : more.filterMap Exchange.token? = [] :=
      List.filterMap_eq_nil_iff.mpr fun x hx => (hlookUp x hx).2
    rw [Log.tokens, hlog, List.filterMap_append, hnone, List.nil_append]
    exact h.tokens

/-! ### The check and the slots -/

/-- What has become of the slots once an admission is decided. -/
def Outcome (a : Admission) (c : ExecutionContext) (now : Timestamp) (token : String)
    (s : Shared) : Decision → Point → Prop
  | .rejected _, p => a.Course now token s false (· > a.cutoff now) noMembers p
  | .admitted true, p =>
    a.Course now token s true (fun _ => True) (c.slotsIn now [Key.orgSlots c.orgId]) p
  | .admitted false, p =>
    a.Course now token s false (fun _ => True) (c.slotsIn now (slotKeys c)) p ∧
      ∀ key ∈ slotKeys c, s.Keeps key c.executionId now.score p.shared

variable {decision : Decision}

theorem Course.weaken (h : a.Course now token s failed Left New p) (hLeft : ∀ x, Left x → Left' x)
    (hNew : ∀ key member score, New key member score → New' key member score) :
    a.Course now token s failed Left' New' p where
  evolves := h.evolves.mono (fun _ h => h) hLeft hNew
  failed_eq := h.failed_eq
  tokens := h.tokens

/-- A vital request that fails before a slot is taken. -/
theorem Course.unchecked (h : a.Course now token s true Left noMembers p) :
    a.Outcome c now token s (.admitted true) p :=
  h.weaken (fun _ _ => trivial) fun _ _ _ h => h.elim

/-- What was decided holds on while other requests leave the sets alone. -/
theorem Outcome.asked {r : Request} {reply : r.Reply} (h : a.Outcome c now token s decision p)
    (hr : r ≠ .token) (hvital : r.isVital = false)
    (he : ∀ P : Float → Prop, Evolves P P noMembers p.shared s') :
    a.Outcome c now token s decision (p.asked s' r reply) := by
  have hcourse : ∀ {failed Left New}, a.Course now token s failed Left New p →
      a.Course now token s failed Left New (p.asked s' r reply) := by
    intro failed Left New h
    refine h.asked hr ?_ (fun _ _ _ h => h)
      ((he Left).mono (fun _ h => h) (fun _ h => h) fun _ _ _ h => h.elim)
    unfold Exchange.failsVitally
    rw [hvital]
    rfl
  match decision with
  | .rejected _ => exact hcourse h
  | .admitted true => exact hcourse h
  | .admitted false =>
    obtain ⟨h, hkeeps⟩ := h
    exact ⟨hcourse h, fun key hkey =>
      (hkeeps key hkey).evolves (isSlots_of_mem_slotKeys hkey) h.evolves (he _)⟩

theorem ensures_checkAndOccupy {Q : Decision → Point → Prop} {E : CoordError → Point → Prop}
    (h : a.Course now token s false (· > a.cutoff now) noMembers p)
    (hQ : ∀ d p', a.Outcome c now token s d p' → Q d p')
    (hE : ∀ e p', a.Outcome c now token s (.admitted true) p' → E e p') :
    Coord.ensures (serving .any a.BeyondClock) Q E (a.checkAndOccupy c now) p := by
  simp only [checkAndOccupy, Coord.ensures_bind]
  refine ensures_purge h (fun _ p₁ h => ?_) fun e p₁ h => hE e p₁ h.unchecked
  refine ensures_purge h (fun _ p₂ h => ?_) fun e p₂ h => hE e p₂ h.unchecked
  refine ensures_count h (fun orgCount p₃ h => ?_) fun e p₃ h => hE e p₃ h.unchecked
  rw [Coord.ensures_lift]
  apply ensures_getLimit fun _ => .cacheTtl
  intro orgLimit p₄ hl _
  have h := h.lookUp hl
  by_cases horg : orgCount ≥ orgLimit
  · simp only [horg, if_true, Coord.ensures_pure]
    exact hQ _ p₄ h
  · simp only [horg, if_false, Coord.ensures_bind]
    refine ensures_count h (fun globalCount p₅ h => ?_) fun e p₅ h => hE e p₅ h.unchecked
    by_cases hglobal : globalCount ≥ a.config.globalLimit
    · simp only [hglobal, if_true, Coord.ensures_bind, Coord.ensures_lift,
        Program.ensures_report]
      apply serving_other (by simp)
      intro _ s₆ hnow hcoord
      exact hQ _ _ (h.idle (by simp) rfl hnow hcoord)
    · simp only [hglobal, if_false, Coord.ensures_bind]
      -- What may have been taken grows with every slot: none, one, both.
      have horg : ∀ key member score, noMembers key member score →
          c.slotsIn now [Key.orgSlots c.orgId] key member score := fun _ _ _ h => h.elim
      have hboth : ∀ key member score, c.slotsIn now [Key.orgSlots c.orgId] key member score →
          c.slotsIn now (slotKeys c) key member score := by
        rintro key member score ⟨hkey, hslot⟩
        exact ⟨List.mem_cons.mpr (Or.inl (List.mem_singleton.mp hkey)), hslot⟩
      refine ensures_addMember h horg ⟨List.mem_singleton_self _, rfl, rfl⟩
        (fun _ p₆ h he hmem => ?_) fun e p₆ h => hE e p₆ h.unchecked
      have horgKeeps : s.Keeps (Key.orgSlots c.orgId) c.executionId now.score p₆.shared :=
        fun _ => hmem
      have hcourse := h
      -- The slot of the organisation stays while that of the whole system is taken.
      refine ensures_addMember h hboth ⟨by simp, rfl, rfl⟩ (fun _ p₇ h he hmem => ?_)
        fun e p₇ h => hE e p₇ h
      refine hQ _ p₇ ⟨h, fun key hkey => ?_⟩
      rcases List.mem_cons.mp hkey with rfl | hkey
      · exact horgKeeps.evolves (Key.isSlots_orgSlots c.orgId) hcourse.evolves (he _ rfl)
      · rw [List.mem_singleton.mp hkey]
        exact fun _ => hmem

end Admission

end ExecutionControl
