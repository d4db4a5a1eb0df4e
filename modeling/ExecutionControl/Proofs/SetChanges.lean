import ExecutionControl.Proofs.CoordinationCalls
import ExecutionControl.Proofs.KeyFamilies
import ExecutionControl.Proofs.Services

/-! # What becomes of sorted sets

    `Evolves` compares the sorted sets of the store at two points: which members they may
    have got, and which they have kept. Both are about sets as they are read at that point,
    so that a set whose deadline comes in between has lost its members; only a set that
    lasts has to keep them. The relation is composed over one request after another.
-/

namespace ExecutionControl

/-- The sorted set under a key, as it is read now. -/
def Shared.members (s : Shared) (key : String) : Members := s.coord.slots s.now key

/-- What becomes of the sorted sets from one point to a later one. -/
structure Evolves (Kept Left : Float → Prop) (New : String → String → Float → Prop)
    (s s' : Shared) : Prop where
  now_le : s.now ≤ s'.now
  /-- A set gets no other members or scores than new ones. -/
  grows : ∀ (key member : String) (score : Float), (s'.members key)[member]? = some score →
    (s.members key)[member]? = some score ∨ New key member score
  /-- A set that lasts until then keeps the members with these scores, and the same
      deadline. -/
  retains : ∀ (key member : String) (score : Float), s.coord.Lasts s.now s'.now key →
    (s.members key)[member]? = some score → Kept score →
    s'.coord.deadline? s'.now key = s.coord.deadline? s.now key ∧
      ∃ score', (s'.members key)[member]? = some score' ∧ Left score'
  /-- No set of slots gets a deadline that it had not. -/
  deadline : ∀ key, Key.IsSlots key → s'.coord.deadline? s'.now key = none ∨
    s'.coord.deadline? s'.now key = s.coord.deadline? s.now key

/-- No members at all. -/
def noMembers (_ _ : String) (_ : Float) : Prop := False

namespace Evolves

variable {P Q R : Float → Prop} {N M : String → String → Float → Prop}
  {s s' s'' : Shared} {k member : String} {score : Float}

/-! ### Composition -/

theorem trans (h : Evolves P Q N s s') (h' : Evolves Q R N s' s'') : Evolves P R N s s'' where
  now_le := Nat.le_trans h.now_le h'.now_le
  grows key member score hmem := by
    rcases h'.grows key member score hmem with hbefore | hnew
    · exact h.grows key member score hbefore
    · exact Or.inr hnew
  retains key member score hlasts hmem hP := by
    have hlasts' : s.coord.Lasts s.now s'.now key := hlasts.of_le h'.now_le
    obtain ⟨hdeadline, score', hmem', hQ⟩ := h.retains key member score hlasts' hmem hP
    -- The deadline is still the one from the start.
    have hlasts'' : s'.coord.Lasts s'.now s''.now key := by
      intro t ht
      rw [hdeadline] at ht
      exact hlasts t ht
    obtain ⟨hdeadline', score'', hmem'', hR⟩ := h'.retains key member score' hlasts'' hmem' hQ
    exact ⟨hdeadline'.trans hdeadline, score'', hmem'', hR⟩
  deadline key hkey := by
    rcases h'.deadline key hkey with hnone | hsame
    · exact Or.inl hnone
    · rw [hsame]
      exact h.deadline key hkey

theorem mono {P' Q' : Float → Prop} (h : Evolves P Q N s s') (hP : ∀ x, P' x → P x)
    (hQ : ∀ x, Q x → Q' x) (hN : ∀ key member score, N key member score → M key member score) :
    Evolves P' Q' M s s' where
  now_le := h.now_le
  grows key member score hmem := by
    rcases h.grows key member score hmem with hbefore | hnew
    · exact Or.inl hbefore
    · exact Or.inr (hN key member score hnew)
  retains key member score hlasts hmem hkept := by
    obtain ⟨hdeadline, score', hmem', hleft⟩ := h.retains key member score hlasts hmem (hP _ hkept)
    exact ⟨hdeadline, score', hmem', hQ _ hleft⟩
  deadline := h.deadline

/-- A set of slots that lasts from the start lasts from any point on. -/
theorem lasts {t : Moment} (h : Evolves P Q N s s') (hk : Key.IsSlots k)
    (hlasts : s.coord.Lasts s.now t k) : s'.coord.Lasts s'.now t k := by
  intro d hd
  rcases h.deadline k hk with hnone | hsame
  · rw [hnone] at hd
    cases hd
  · rw [hsame] at hd
    exact hlasts d hd

/-! ### Single requests -/

/-- Where the store stays as it is, sets can only run out. -/
theorem of_coord_eq (hnow : s.now ≤ s'.now) (hcoord : s'.coord = s.coord) :
    Evolves P P N s s' where
  now_le := hnow
  grows key member score hmem := by
    left
    unfold Shared.members at hmem ⊢
    rw [hcoord] at hmem
    rcases CoordStore.slots_eq_or_empty hnow key with heq | hempty
    · rwa [heq] at hmem
    · rw [hempty, Std.ExtTreeMap.getElem?_empty] at hmem
      cases hmem
  retains key member score hlasts hmem hP := by
    unfold Shared.members at hmem ⊢
    rw [hcoord, CoordStore.deadline?_of_lasts hnow hlasts, CoordStore.slots_of_lasts hnow hlasts]
    exact ⟨rfl, score, hmem, hP⟩
  deadline key _ := by
    rw [hcoord]
    exact CoordStore.deadline?_eq_none_or hnow key

theorem refl : Evolves P P N s s := of_coord_eq (Nat.le_refl _) rfl

/-- A request that writes under one key at a time. -/
theorem of_write (hnow : s'.now = s.now)
    (hentries : ∀ key, key ≠ k → s'.coord.entries[key]? = s.coord.entries[key]?)
    (hPQ : ∀ x, P x → Q x)
    (hgrows : ∀ (member : String) (score : Float), (s'.members k)[member]? = some score →
      (s.members k)[member]? = some score ∨ N k member score)
    (hretains : ∀ (member : String) (score : Float), (s.members k)[member]? = some score → P score →
      s'.coord.deadline? s'.now k = s.coord.deadline? s.now k ∧
        ∃ score', (s'.members k)[member]? = some score' ∧ Q score')
    (hdeadline : Key.IsSlots k → s'.coord.deadline? s'.now k = none ∨
      s'.coord.deadline? s'.now k = s.coord.deadline? s.now k) :
    Evolves P Q N s s' where
  now_le := Nat.le_of_eq hnow.symm
  grows key member score hmem := by
    by_cases hk : key = k
    · rw [hk] at hmem ⊢
      exact hgrows member score hmem
    · left
      unfold Shared.members at hmem ⊢
      rwa [hnow, CoordStore.slots_congr (hentries key hk)] at hmem
  retains key member score _ hmem hP := by
    by_cases hk : key = k
    · rw [hk] at hmem ⊢
      exact hretains member score hmem hP
    · unfold Shared.members at hmem ⊢
      rw [hnow, CoordStore.slots_congr (hentries key hk),
        CoordStore.deadline?_congr (hentries key hk)]
      exact ⟨rfl, score, hmem, hPQ _ hP⟩
  deadline key hkey := by
    by_cases hk : key = k
    · rw [hk] at hkey ⊢
      exact hdeadline hkey
    · rw [hnow, CoordStore.deadline?_congr (hentries key hk)]
      exact Or.inr rfl

/-- A request that writes where no set is, and puts none there. -/
theorem of_write_text (hk : ¬ Key.IsSlots k) (hnow : s.now ≤ s'.now)
    (hentries : ∀ key, key ≠ k → s'.coord.entries[key]? = s.coord.entries[key]?)
    (hbefore : s.coord.slots s'.now k = ∅) (hafter : s'.coord.slots s'.now k = ∅) :
    Evolves P P N s s' := by
  -- First the time passes, then the request is carried out.
  have hwait : Evolves P P N s (s.wait s'.now) := of_coord_eq hnow rfl
  refine hwait.trans (of_write rfl hentries (fun _ h => h) ?_ ?_ (fun h => absurd h hk))
  · intro member score hmem
    unfold Shared.members at hmem
    rw [hafter, Std.ExtTreeMap.getElem?_empty] at hmem
    cases hmem
  · intro member score hmem
    have hmem' : (s.coord.slots s'.now k)[member]? = some score := hmem
    rw [hbefore, Std.ExtTreeMap.getElem?_empty] at hmem'
    cases hmem'

/-- Locks are no sets. -/
theorem of_unlock {token : String} {answer : Except CoordError Bool} (hk : ¬ Key.IsSlots k)
    (hnow : s.now ≤ s'.now)
    (h : s.coord.perform s'.now (.unlock k token) = .ok (answer, s'.coord)) :
    Evolves P P N s s' := by
  have hdropped : s'.coord = s.coord.drop k → s.coord.slots s'.now k = ∅ → Evolves P P N s s' := by
    intro hcoord hempty
    refine .of_write_text hk hnow (fun key hkey => ?_) hempty ?_
    · rw [hcoord]
      exact CoordStore.entries_drop_of_ne hkey
    · rw [hcoord]
      exact CoordStore.slots_drop
  rcases CoordStore.perform_unlock h with ⟨_, hcoord⟩ | ⟨hheld, hcoord⟩ | ⟨_, hcoord⟩
  · exact .of_coord_eq hnow hcoord
  · -- A lock is a text, and where a text is no set is.
    have htext := CoordStore.isHeldBy_iff.mp hheld
    exact hdropped hcoord (CoordStore.slots_of_text (some token) htext)
  · unfold CoordStore.settle at hcoord
    split at hcoord
    · exact .of_coord_eq hnow hcoord
    · rename_i hdead
      have hnone : s.coord.datum? s'.now k = none := by
        rw [Option.not_isSome_iff_eq_none] at hdead
        rw [CoordStore.datum?, hdead]
        rfl
      exact hdropped hcoord (CoordStore.slots_of_text none hnone)

/-- A lock is taken only where no set is. -/
theorem of_tryLock {token : String} {ttl : Duration} {answer : Except CoordError Bool}
    (hk : ¬ Key.IsSlots k) (hnow : s.now ≤ s'.now)
    (h : s.coord.perform s'.now (.tryLock k token ttl) = .ok (answer, s'.coord)) :
    Evolves P P N s s' := by
  rcases CoordStore.perform_tryLock h with ⟨_, hcoord⟩ | ⟨_, hfree, hcoord⟩
  · exact .of_coord_eq hnow hcoord
  · refine .of_write_text hk hnow (fun key hkey => ?_) ?_ ?_
    · rw [hcoord]
      exact CoordStore.entries_put_of_ne hkey
    · have hnone : s.coord.datum? s'.now k = none := by
        rw [CoordStore.datum?, hfree]
        rfl
      exact CoordStore.slots_of_text none hnone
    · rw [hcoord]
      exact CoordStore.slots_put_text

/-- A removal of low scores keeps the members above them. -/
theorem of_removeScores {low high : Float} (hnow : s.now ≤ s'.now)
    (hcoord : s'.coord = s.coord.putMembers s'.now k
      (CoordStore.keptScores low high (s.coord.slots s'.now k))) :
    Evolves (· > high) (· > high) N s s' := by
  have hwait : Evolves (· > high) (· > high) N s (s.wait s'.now) := of_coord_eq hnow rfl
  have hset : s'.members k = CoordStore.keptScores low high (s.coord.slots s'.now k) := by
    unfold Shared.members
    rw [hcoord]
    exact CoordStore.slots_putMembers CoordStore.lasts_self
  refine hwait.trans (of_write (k := k) rfl (fun key hk => ?_) (fun _ h => h) ?_ ?_ ?_)
  · rw [hcoord]
    exact CoordStore.entries_putMembers_of_ne hk
  · intro member score hmem
    rw [hset, CoordStore.getElem?_keptScores] at hmem
    exact Or.inl hmem.1
  · intro member score hmem hhigh
    have hkept : (s'.members k)[member]? = some score := by
      rw [hset, CoordStore.getElem?_keptScores]
      exact ⟨hmem, Or.inr hhigh⟩
    -- The set is not empty, so that it keeps its deadline.
    have hne : (CoordStore.keptScores low high (s.coord.slots s'.now k)).isEmpty = false := by
      rw [← hset, Bool.eq_false_iff]
      intro hempty
      rw [Std.ExtTreeMap.isEmpty_iff.mp hempty, Std.ExtTreeMap.getElem?_empty] at hkept
      cases hkept
    refine ⟨?_, score, hkept, hhigh⟩
    rw [hcoord]
    exact CoordStore.deadline?_putMembers hne
  · intro _
    rw [hcoord]
    exact CoordStore.deadline?_putMembers_eq_none_or

/-- A member that is added stands beside all others. -/
theorem of_addMember (hP : P score) (hnow : s.now ≤ s'.now)
    (hcoord : s'.coord = s.coord.putMembers s'.now k
      ((s.coord.slots s'.now k).insert member score)) :
    Evolves P P (fun key m sc => key = k ∧ m = member ∧ sc = score) s s' := by
  have hwait : Evolves P P (fun key m sc => key = k ∧ m = member ∧ sc = score) s
      (s.wait s'.now) := of_coord_eq hnow rfl
  have hset : s'.members k = (s.coord.slots s'.now k).insert member score := by
    unfold Shared.members
    rw [hcoord]
    exact CoordStore.slots_putMembers CoordStore.lasts_self
  refine hwait.trans (of_write (k := k) rfl (fun key hk => ?_) (fun _ h => h) ?_ ?_ ?_)
  · rw [hcoord]
    exact CoordStore.entries_putMembers_of_ne hk
  · intro m sc hmem
    rw [hset, Std.ExtTreeMap.getElem?_insert] at hmem
    by_cases hm : member = m
    · rw [if_pos (by simpa using hm)] at hmem
      exact Or.inr ⟨rfl, hm.symm, (Option.some.inj hmem).symm⟩
    · rw [if_neg (by simpa using hm)] at hmem
      exact Or.inl hmem
  · intro m sc hmem hsc
    refine ⟨?_, ?_⟩
    · rw [hcoord]
      exact CoordStore.deadline?_putMembers (by simp)
    · -- The member itself has the new score, if it was there before.
      rw [hset, Std.ExtTreeMap.getElem?_insert]
      by_cases hm : member = m
      · rw [if_pos (by simpa using hm)]
        exact ⟨score, rfl, hP⟩
      · rw [if_neg (by simpa using hm)]
        exact ⟨sc, hmem, hsc⟩
  · intro _
    rw [hcoord]
    exact CoordStore.deadline?_putMembers_eq_none_or

end Evolves

/-! ### Members that stay -/

/-- The set under a key holds a member with this score, unless the deadline that it had at
    the start has come. -/
def Shared.Keeps (s : Shared) (key member : String) (score : Float) (s' : Shared) : Prop :=
  s.coord.Lasts s.now s'.now key → (s'.members key)[member]? = some score

theorem Shared.Keeps.evolves {s s₁ s₂ : Shared} {key member : String} {score : Float}
    {P Q : Float → Prop} {N N' : String → String → Float → Prop}
    (h : s.Keeps key member score s₁) (hkey : Key.IsSlots key) (he₁ : Evolves P Q N s s₁)
    (he₂ : Evolves (· = score) (· = score) N' s₁ s₂) : s.Keeps key member score s₂ := by
  intro hlasts
  have hmem := h (hlasts.of_le he₂.now_le)
  obtain ⟨_, score', hmem', rfl⟩ := he₂.retains key member score (he₁.lasts hkey hlasts) hmem rfl
  exact hmem'

end ExecutionControl
