import ExecutionControl.Proofs.Admission.Stages
import ExecutionControl.Proofs.CoordinationCalls
import ExecutionControl.Proofs.Ensures

/-! # Looking up a ceiling

    The ceiling of an organisation is read from the cache, or from the durable table and
    then cached. `ensures_getLimit` says all that this does, whichever of its calls fail:
    the store changes under the key of the cached ceiling only (`LooksUp`), and the ceiling
    that is given back is the one that was read.
-/

namespace ExecutionControl

namespace Admission

/-! ### The ceiling that was read -/

/-- The ceiling that an operation has read. -/
def limitRead (a : Admission) (op : Operation) (log : Log) : Option Nat :=
  (a.discipline.stage op log).limit

theorem limitRead_cons (a : Admission) (op : Operation) (x : Exchange) (log : Log) :
    a.limitRead op (x :: log) = (Stage.after a (a.discipline.stage op log) x).limit := rfl

end Admission

/-! ### What looking up a ceiling does -/

/-- Whether a request may be part of looking up a ceiling. -/
def Request.looksUp : Request → Bool
  | .coord (.getText _) => true
  | .coord (.setText ..) => true
  | .limits _ => true
  | .report _ => true
  | _ => false

/-- What may have been done from one point to another where only the ceiling of an
    organisation was looked up. -/
structure LooksUp (o : String) (p p' : Point) : Prop where
  now_le : p.shared.now ≤ p'.shared.now
  available : p'.shared.coord.available = p.shared.coord.available
  /-- Nothing is written but the cached ceiling, -/
  entries : ∀ key, key ≠ Key.limitCache o →
    p'.shared.coord.entries[key]? = p.shared.coord.entries[key]?
  /-- and it is written only where no set is. -/
  cached : p'.shared.coord = p.shared.coord ∨
    p.shared.coord.slots p'.shared.now (Key.limitCache o) = ∅ ∧
      p'.shared.coord.slots p'.shared.now (Key.limitCache o) = ∅
  asked : ∃ more : Log, p'.log = more ++ p.log ∧ ∀ x ∈ more, x.request.looksUp

namespace LooksUp

variable {o : String} {p p' : Point} {s' : Shared} {r : Request} {reply : r.Reply}

theorem refl : LooksUp o p p where
  now_le := Nat.le_refl _
  available := rfl
  entries _ _ := rfl
  cached := Or.inl rfl
  asked := ⟨[], rfl, by simp⟩

theorem asked_cons (h : LooksUp o p p') (hr : r.looksUp) :
    ∃ more : Log, (p'.asked s' r reply).log = more ++ p.log ∧ ∀ x ∈ more, x.request.looksUp := by
  obtain ⟨more, hlog, hmore⟩ := h.asked
  refine ⟨⟨s'.now, r, reply⟩ :: more, ?_, fun x hx => ?_⟩
  · show _ :: p'.log = _
    rw [hlog]
    rfl
  · rcases List.mem_cons.mp hx with rfl | hx
    · exact hr
    · exact hmore x hx

/-- A request that leaves the store alone. -/
theorem idle (h : LooksUp o p p') (hr : r.looksUp) (hnow : p'.shared.now ≤ s'.now)
    (hcoord : s'.coord = p'.shared.coord) : LooksUp o p (p'.asked s' r reply) where
  now_le := Nat.le_trans h.now_le hnow
  available := by
    show s'.coord.available = _
    rw [hcoord, h.available]
  entries key hkey := by
    show s'.coord.entries[key]? = _
    rw [hcoord, h.entries key hkey]
  cached := by
    show s'.coord = _ ∨ _ = ∅ ∧ s'.coord.slots s'.now _ = ∅
    rw [hcoord]
    rcases h.cached with hsame | ⟨hbefore, hafter⟩
    · exact Or.inl hsame
    · exact Or.inr ⟨CoordStore.slots_eq_empty_of_le hnow hbefore,
        CoordStore.slots_eq_empty_of_le hnow hafter⟩
  asked := h.asked_cons hr

/-- The ceiling is cached where no set was. -/
theorem write (h : LooksUp o p p') (hr : r.looksUp) {value : String} {deadline : Option Moment}
    (hfree : p'.shared.coord.slots p'.shared.now (Key.limitCache o) = ∅)
    (hnow : p'.shared.now ≤ s'.now)
    (hcoord : s'.coord = p'.shared.coord.put (Key.limitCache o) ⟨.text value, deadline⟩) :
    LooksUp o p (p'.asked s' r reply) where
  now_le := Nat.le_trans h.now_le hnow
  available := by
    show s'.coord.available = _
    rw [hcoord, ← h.available]
    rfl
  entries key hkey := by
    show s'.coord.entries[key]? = _
    rw [hcoord, CoordStore.entries_put_of_ne hkey, h.entries key hkey]
  cached := by
    right
    show _ ∧ s'.coord.slots s'.now _ = ∅
    rw [hcoord, CoordStore.slots_put_text]
    refine ⟨CoordStore.slots_eq_empty_of_le hnow ?_, rfl⟩
    rcases h.cached with hsame | ⟨hbefore, _⟩
    · rwa [hsame] at hfree
    · exact hbefore
  asked := h.asked_cons hr

end LooksUp

/-! ### The look-up -/

variable {a : Admission} {F : Faults} {O : Overflow → Point → Prop} {o : String} {p p' : Point}
  {Q : Nat → Point → Prop}

namespace Admission

/-- The durable ceiling is read, and cached where the cache could be read. -/
theorem ensures_load {reachable : Bool} (h : LooksUp o p p')
    (hfree : reachable = true → p'.shared.coord.slots p'.shared.now (Key.limitCache o) = ∅)
    (hO : ∀ p', Moment.bound ≤ p'.shared.now + a.cache.ttl.nanos → O .deadline p')
    (hQ : ∀ n p', LooksUp o p p' → (∀ op, a.limitRead op p'.log = some n) → Q n p') :
    (a.cache.load o reachable).ensures (serving F O) Q p' := by
  simp only [LimitCache.load, Program.ensures_bind, Program.ensures_limits]
  apply serving_other (by simp)
  intro reply s₁ hnow₁ hcoord₁
  cases reply with
  | error e =>
    simp only [Program.ensures_bind, Program.ensures_report]
    apply serving_other (by simp)
    intro _ s₂ hnow₂ hcoord₂
    have h₁ : LooksUp o p (p'.asked s₁ (.limits (.get o)) (.error e)) := h.idle rfl hnow₁ hcoord₁
    exact hQ _ _ (h₁.idle rfl hnow₂ hcoord₂) fun _ => rfl
  | ok row =>
    have h₁ : LooksUp o p (p'.asked s₁ (.limits (.get o)) (.ok row)) := h.idle rfl hnow₁ hcoord₁
    cases reachable with
    | false => exact hQ _ _ h₁ fun _ => rfl
    | true =>
      simp only [if_true, Program.ensures_bind, Program.ensures_coord]
      -- No set can have come there since the cache was read.
      have hfree₁ : s₁.coord.slots s₁.now (Key.limitCache o) = ∅ := by
        rw [hcoord₁]
        exact CoordStore.slots_eq_empty_of_le hnow₁ (hfree rfl)
      apply serving_coord
      · intro reply s₂ hnow₂ hp
        rcases CoordStore.perform_setText hp with hcoord₂ | ⟨deadline, hcoord₂⟩
        · exact hQ _ _ (h₁.idle rfl hnow₂ hcoord₂) fun _ => rfl
        · exact hQ _ _ (h₁.write rfl hfree₁ hnow₂ hcoord₂) fun _ => rfl
      · intro e s₂ hnow₂ hcoord₂ _
        exact hQ _ _ (h₁.idle rfl hnow₂ hcoord₂) fun _ => rfl
      · intro o' s₂ _ _ hp
        obtain ⟨rfl, hbound⟩ := CoordStore.perform_setText_error hp
        exact hO _ hbound

/-- Looking up a ceiling writes nothing but the cached ceiling, and gives back the ceiling
    that was read. -/
theorem ensures_getLimit
    (hO : ∀ p', Moment.bound ≤ p'.shared.now + a.cache.ttl.nanos → O .deadline p')
    (hQ : ∀ n p', LooksUp o p p' → (∀ op, a.limitRead op p'.log = some n) → Q n p') :
    (a.cache.getLimit o).ensures (serving F O) Q p := by
  -- With a cache that failed the durable ceiling is read all the same, and not cached.
  have hunreachable : ∀ (e : CoordError) (s₁ : Shared), p.shared.now ≤ s₁.now →
      s₁.coord = p.shared.coord →
      (do Program.report (.limitCacheUnreachable o e); a.cache.load o false).ensures
        (serving F O) Q (p.asked s₁ (.coord (.getText (Key.limitCache o))) (.error e)) := by
    intro e s₁ hnow₁ hcoord₁
    simp only [Program.ensures_bind, Program.ensures_report]
    apply serving_other (by simp)
    intro _ s₂ hnow₂ hcoord₂
    have h₁ : LooksUp o p (p.asked s₁ (.coord (.getText (Key.limitCache o))) (.error e)) :=
      LooksUp.refl.idle rfl hnow₁ hcoord₁
    exact ensures_load (h₁.idle rfl hnow₂ hcoord₂) (fun hfalse => by cases hfalse) hO hQ
  simp only [LimitCache.getLimit, Program.ensures_bind, Program.ensures_coord]
  apply serving_coord
  · intro reply s₁ hnow₁ hp
    obtain ⟨hcoord₁, htext⟩ := CoordStore.perform_getText hp
    rcases reply with e | text
    · exact hunreachable e s₁ hnow₁ hcoord₁
    have h₁ : LooksUp o p (p.asked s₁ (.coord (.getText (Key.limitCache o))) (.ok text)) :=
      LooksUp.refl.idle rfl hnow₁ hcoord₁
    have hfree₁ : s₁.coord.slots s₁.now (Key.limitCache o) = ∅ := by
      rw [hcoord₁]
      exact CoordStore.slots_of_text text (htext text rfl)
    rcases text with _ | raw
    · exact ensures_load h₁ (fun _ => hfree₁) hO hQ
    · cases hraw : LimitCache.cachedLimit? raw with
      | some n =>
        simp only [hraw, Program.ensures_pure]
        apply hQ n _ h₁
        intro op
        rw [Point.asked, limitRead_cons]
        simp only [Stage.after, hraw]
      | none =>
        simp only [hraw, Program.ensures_bind, Program.ensures_report]
        apply serving_other (by simp)
        intro _ s₂ hnow₂ hcoord₂
        apply ensures_load (h₁.idle rfl hnow₂ hcoord₂) _ hO hQ
        intro _
        show s₂.coord.slots s₂.now _ = ∅
        rw [hcoord₂]
        exact CoordStore.slots_eq_empty_of_le hnow₂ hfree₁
  · intro e s₁ hnow₁ hcoord₁ _
    exact hunreachable e s₁ hnow₁ hcoord₁
  · intro o' s₁ _ _ hp
    cases hp

end Admission

end ExecutionControl
