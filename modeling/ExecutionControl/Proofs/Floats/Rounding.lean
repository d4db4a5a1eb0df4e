import Mathlib

/-! # Rounding of floating-point numbers

    A result of floating-point arithmetic is the exact one, rounded to 53 binary digits, or
    to fewer where the last of them would lie below `2 ^ (-1074)`. `Rounds` says which
    number that is, and `Rounds.mono` that rounding keeps the order of numbers.

    The arithmetic works on mantissas, with two bits that tell what was cut off. `Tells`
    says what they stand for, and `roundWithAccuracy_rounds` that what they are rounded to
    is what `Rounds` says.
-/

namespace ExecutionControl

namespace Binary64

open Float.Model Float.Model.UnpackedFloat

/-! ### Whole numbers -/

/-- A whole number that no other is nearer to. Of two that are equally near it is the even
    one. -/
structure IsNearest (n : ℤ) (x : ℚ) : Prop where
  low : n - 1 / 2 ≤ x
  high : x ≤ n + 1 / 2
  even : x = n - 1 / 2 ∨ x = n + 1 / 2 → Even n

variable {n n' : ℤ} {x x' : ℚ}

theorem isNearest_self (n : ℤ) : IsNearest n n where
  low := by linarith
  high := by linarith
  even h := by rcases h with h | h <;> linarith

theorem isNearest_of_lt (hlow : n - 1 / 2 < x) (hhigh : x < n + 1 / 2) : IsNearest n x where
  low := hlow.le
  high := hhigh.le
  even h := by rcases h with h | h <;> linarith

theorem IsNearest.neg (h : IsNearest n x) : IsNearest (-n) (-x) where
  low := by
    push_cast
    linarith [h.high]
  high := by
    push_cast
    linarith [h.low]
  even hx := by
    push_cast at hx
    refine (h.even ?_).neg
    rcases hx with hx | hx
    · right
      linarith
    · left
      linarith

theorem IsNearest.mono (h : IsNearest n x) (h' : IsNearest n' x') (hx : x ≤ x') : n ≤ n' := by
  by_contra hlt
  have hnext : (n' : ℚ) + 1 ≤ n := by exact_mod_cast not_le.mp hlt
  have hlow := h.low
  have hhigh := h'.high
  -- Both numbers lie halfway between `n'` and its successor `n`, and one of these is odd.
  have heven : Even n := h.even (Or.inl (by linarith))
  have heven' : Even n' := h'.even (Or.inr (by linarith))
  have hsucc : n = n' + 1 := by
    have : (n : ℚ) = n' + 1 := by linarith
    exact_mod_cast this
  rw [hsucc, Int.even_add_one] at heven
  exact heven heven'

/-! ### What the bits beside a mantissa tell -/

/-- What a mantissa and the bits beside it tell of a number: the whole part, and how the
    rest compares to one half. -/
def Tells (em : ExtendedMantissa) (x : ℚ) : Prop :=
  match em.roundBit, em.stickyBit with
  | false, false => x = em.mantissa
  | false, true => em.mantissa < x ∧ x < em.mantissa + 1 / 2
  | true, false => x = em.mantissa + 1 / 2
  | true, true => em.mantissa + 1 / 2 < x ∧ x < em.mantissa + 1

variable {em : ExtendedMantissa}

theorem tells_exact (m : ℕ) : Tells (.ofMantissaAndAccuracy m .exact) m := rfl

theorem Tells.bounds (h : Tells em x) : em.mantissa ≤ x ∧ x < em.mantissa + 1 := by
  obtain ⟨m, roundBit, stickyBit⟩ := em
  cases roundBit <;> cases stickyBit <;> simp only [Tells] at h ⊢ <;> constructor <;> linarith

/-- What a mantissa is rounded to. -/
theorem Tells.isNearest (h : Tells em x) : IsNearest em.roundedMantissa x := by
  obtain ⟨m, roundBit, stickyBit⟩ := em
  cases roundBit <;> cases stickyBit <;> simp only [Tells] at h
  · rw [h]
    exact isNearest_self m
  · show IsNearest m x
    apply isNearest_of_lt <;> push_cast <;> linarith
  · show IsNearest (m + m % 2 : ℕ) x
    rcases Nat.mod_two_eq_zero_or_one m with hm | hm
    · -- The mantissa is even and stays.
      have heven : Even (m : ℤ) := by exact_mod_cast Nat.even_iff.mpr hm
      rw [hm, Nat.add_zero]
      exact ⟨by push_cast; linarith, by push_cast; linarith, fun _ => heven⟩
    · have heven : Even ((m + 1 : ℕ) : ℤ) := by
        exact_mod_cast Nat.even_iff.mpr (show (m + 1) % 2 = 0 by omega)
      rw [hm]
      exact ⟨by push_cast; linarith, by push_cast; linarith, fun _ => heven⟩
  · show IsNearest (m + 1 : ℕ) x
    apply isNearest_of_lt <;> push_cast <;> linarith

theorem Tells.shiftRightOne (h : Tells em x) : Tells em.shiftRightOne (x / 2) := by
  obtain ⟨m, roundBit, stickyBit⟩ := em
  have hm : (m : ℚ) = (m % 2 : ℕ) + 2 * (m / 2 : ℕ) := by
    exact_mod_cast (Nat.mod_add_div m 2).symm
  -- The digit that is cut off becomes the first bit, and both bits become the second one.
  rcases Nat.mod_two_eq_zero_or_one m with hmod | hmod <;> rw [hmod] at hm <;>
    cases roundBit <;> cases stickyBit <;>
    simp [Tells, ExtendedMantissa.shiftRightOne, hmod] at h ⊢ <;>
    push_cast at hm <;> first | linarith | constructor <;> linarith

theorem Tells.shiftRight (h : Tells em x) (k : ℕ) : Tells (em >>> k) (x / 2 ^ k) := by
  show Tells (k.repeat ExtendedMantissa.shiftRightOne em) (x / 2 ^ k)
  induction k with
  | zero => simpa [Nat.repeat] using h
  | succ k ih =>
    rw [Nat.repeat, pow_succ, ← div_div]
    exact ih.shiftRightOne

/-! ### Rounded numbers -/

/-- The place of the last digit that a number keeps: the place of its 53rd digit, but not
    below the last place of all. -/
structure LastPlace (q : ℚ) (e : ℤ) : Prop where
  least : -1074 ≤ e
  below : |q| < 2 ^ (e + 53)
  above : e = -1074 ∨ 2 ^ (e + 52) ≤ |q|

/-- Whether a number, rounded, is another one; exponents have no upper bound yet. -/
def Rounds (q v : ℚ) : Prop := ∃ e n : ℤ, LastPlace q e ∧ IsNearest n (q / 2 ^ e) ∧ v = n * 2 ^ e

variable {q q' v v' : ℚ} {e e' : ℤ} {m : ℕ}

theorem LastPlace.neg (h : LastPlace q e) : LastPlace (-q) e :=
  ⟨h.least, by simpa using h.below, by simpa using h.above⟩

/-- A greater number does not keep digits of a lower place. -/
theorem LastPlace.mono (h : LastPlace q e) (h' : LastPlace q' e') (hq : |q| ≤ |q'|) : e ≤ e' := by
  by_contra hlt
  have hpow : (2 : ℚ) ^ (e' + 53) ≤ 2 ^ (e + 52) := zpow_le_zpow_right₀ one_le_two (by omega)
  rcases h.above with hleast | habove
  · have := h'.least
    omega
  · have hbelow := h'.below
    linarith

/-- What the kept digits are rounded to has one digit more at most. -/
theorem LastPlace.nearest_le (h : LastPlace q e) (hq : 0 ≤ q) (hn : IsNearest n (q / 2 ^ e)) :
    n ≤ 2 ^ 53 := by
  refine hn.mono (isNearest_self (2 ^ 53)) ?_
  have hbelow := h.below
  rw [abs_of_nonneg hq, add_comm, zpow_add₀ two_ne_zero] at hbelow
  rw [div_le_iff₀ (by positivity)]
  exact hbelow.le

/-- Above the last place of all, it has no digit less. -/
theorem LastPlace.le_nearest (h : LastPlace q e) (hq : 0 ≤ q) (he : e ≠ -1074)
    (hn : IsNearest n (q / 2 ^ e)) : 2 ^ 52 ≤ n := by
  refine (isNearest_self (2 ^ 52)).mono hn ?_
  have habove := h.above.resolve_left he
  rw [abs_of_nonneg hq, add_comm, zpow_add₀ two_ne_zero] at habove
  rw [le_div_iff₀ (by positivity)]
  exact habove

theorem Rounds.neg (h : Rounds q v) : Rounds (-q) (-v) := by
  obtain ⟨e, n, hplace, hnear, rfl⟩ := h
  refine ⟨e, -n, hplace.neg, ?_, by push_cast; ring⟩
  rw [neg_div]
  exact hnear.neg

theorem Rounds.nonneg (h : Rounds q v) (hq : 0 ≤ q) : 0 ≤ v := by
  obtain ⟨e, n, -, hnear, rfl⟩ := h
  have hn : 0 ≤ n := by
    refine (isNearest_self 0).mono hnear ?_
    rw [Int.cast_zero]
    positivity
  positivity

theorem Rounds.mono_of_nonneg (h : Rounds q v) (h' : Rounds q' v') (hq : 0 ≤ q) (hle : q ≤ q') :
    v ≤ v' := by
  obtain ⟨e, n, hplace, hnear, rfl⟩ := h
  obtain ⟨e', n', hplace', hnear', rfl⟩ := h'
  have habs : |q| = q := abs_of_nonneg hq
  have habs' : |q'| = q' := abs_of_nonneg (hq.trans hle)
  have hpos : (0 : ℚ) < 2 ^ e := by positivity
  have hpos' : (0 : ℚ) < 2 ^ e' := by positivity
  rcases (hplace.mono hplace' (by rwa [habs, habs'])).eq_or_lt with rfl | hlt
  · -- Both keep the same digits.
    have hn : (n : ℚ) ≤ n' := by
      exact_mod_cast hnear.mono hnear' (div_le_div_of_nonneg_right hle hpos.le)
    exact mul_le_mul_of_nonneg_right hn hpos.le
  · -- A power of two lies between them, which is kept as it is.
    have hplaces : e' ≠ -1074 := by
      have := hplace.least
      omega
    have hn : (n : ℚ) ≤ 2 ^ 53 := by exact_mod_cast hplace.nearest_le hq hnear
    have hn' : (2 : ℚ) ^ 52 ≤ n' := by
      exact_mod_cast hplace'.le_nearest (hq.trans hle) hplaces hnear'
    calc (n : ℚ) * 2 ^ e ≤ 2 ^ 53 * 2 ^ e := mul_le_mul_of_nonneg_right hn hpos.le
      _ = 2 ^ 52 * 2 ^ (e + 1) := by rw [zpow_add₀ two_ne_zero]; ring
      _ ≤ 2 ^ 52 * 2 ^ e' :=
        mul_le_mul_of_nonneg_left (zpow_le_zpow_right₀ one_le_two (by omega)) (by positivity)
      _ ≤ n' * 2 ^ e' := mul_le_mul_of_nonneg_right hn' hpos'.le

/-- Rounding keeps the order of numbers. -/
theorem Rounds.mono (h : Rounds q v) (h' : Rounds q' v') (hle : q ≤ q') : v ≤ v' := by
  rcases le_total 0 q with hq | hq
  · exact h.mono_of_nonneg h' hq hle
  · have hv : 0 ≤ -v := h.neg.nonneg (by linarith)
    rcases le_total 0 q' with hq' | hq'
    · linarith [h'.nonneg hq']
    · -- Below zero both are the negatives of positive numbers.
      have := h'.neg.mono_of_nonneg h.neg (by linarith) (by linarith)
      linarith

theorem Rounds.unique (h : Rounds q v) (h' : Rounds q v') : v = v' :=
  (h.mono h' le_rfl).antisymm (h'.mono h le_rfl)

/-! ### Canonical form -/

/-- The form in which a positive number is kept: a mantissa of 53 digits, or of fewer at the
    last place of all. -/
structure Canonical (m : ℕ) (e : ℤ) : Prop where
  least : -1074 ≤ e
  below : m < 2 ^ 53
  above : e = -1074 ∨ 2 ^ 52 ≤ m

theorem Canonical.lastPlace (h : Canonical m e) : LastPlace (m * 2 ^ e) e where
  least := h.least
  below := by
    have hm : (m : ℚ) < 2 ^ 53 := by exact_mod_cast h.below
    rw [abs_of_nonneg (by positivity), add_comm, zpow_add₀ two_ne_zero]
    exact mul_lt_mul_of_pos_right hm (by positivity)
  above := h.above.imp_right fun habove => by
    have hm : (2 : ℚ) ^ 52 ≤ m := by exact_mod_cast habove
    rw [abs_of_nonneg (by positivity), add_comm, zpow_add₀ two_ne_zero]
    exact mul_le_mul_of_nonneg_right hm (by positivity)

/-- A number in canonical form is rounded to itself. -/
theorem Canonical.rounds (h : Canonical m e) : Rounds (m * 2 ^ e) (m * 2 ^ e) := by
  refine ⟨e, m, h.lastPlace, ?_, by simp⟩
  rw [mul_div_cancel_right₀ _ (by positivity)]
  exact isNearest_self m

/-- What lies within a power of two lies within it once it is rounded. -/
theorem Rounds.abs_le_two_pow {k : ℕ} (h : Rounds q v) (hq : |q| ≤ 2 ^ k) : |v| ≤ 2 ^ k := by
  have hc : Canonical (2 ^ 52) (k - 52) := ⟨by omega, by decide, Or.inr le_rfl⟩
  have hvalue : ((2 ^ 52 : ℕ) : ℚ) * 2 ^ ((k : ℤ) - 52) = 2 ^ k := by
    rw [zpow_sub₀ two_ne_zero, zpow_natCast, Nat.cast_pow, Nat.cast_ofNat]
    exact mul_div_cancel₀ _ (by norm_num)
  have hpower : Rounds (2 ^ k) (2 ^ k) := by
    rw [← hvalue]
    exact hc.rounds
  rw [abs_le] at hq ⊢
  exact ⟨hpower.neg.mono h hq.1, h.mono hpower hq.2⟩

/-- A number with a sign. -/
def signed : Sign → ℚ → ℚ
  | .positive, x => x
  | .negative, x => -x

theorem Rounds.signed (h : Rounds q v) (s : Sign) :
    Rounds (Binary64.signed s q) (Binary64.signed s v) := by
  cases s
  · exact h.neg
  · exact h

/-- The number that a finite result stands for, in canonical form but without an upper bound
    on its exponent. -/
inductive Denotes : UnpackedFloat → ℚ → Prop
  | zero (s : Sign) : Denotes (.zero s) 0
  | finite (s : Sign) {m : ℕ} {e : ℤ} (hm : 0 < m) (hc : Canonical m e) :
    Denotes (.finite s m e hm) (signed s (m * 2 ^ e))

/-- What is in canonical form is rounded to itself. -/
theorem Denotes.rounds {u : UnpackedFloat} (h : Denotes u v) : Rounds v v := by
  cases h with
  | zero s =>
    have hzero : Canonical 0 (-1074) := ⟨le_rfl, by norm_num, Or.inl rfl⟩
    simpa using hzero.rounds
  | finite s hm hc => exact hc.rounds.signed s

/-! ### Rounding a mantissa -/

/-- The exponent for a number whose first digit has a given place. -/
theorem targetExponent_eq (t : ℤ) : Format.binary64.targetExponent t = max (t - 53) (-1074) := rfl

/-- The exponent of a mantissa that is to be rounded. -/
theorem targetExponent_totalExponent (m : ℕ) (e : ℤ) :
    Format.binary64.targetExponent (totalExponent m e) = max (m.log2 + e - 52) (-1074) := by
  rw [targetExponent_eq, totalExponent]
  omega

variable {acc : Accuracy}

@[simp] theorem mantissa_ofMantissaAndAccuracy :
    (ExtendedMantissa.ofMantissaAndAccuracy m acc).mantissa = m := by
  unfold ExtendedMantissa.ofMantissaAndAccuracy
  split <;> rfl

/-- The exponent of a mantissa with enough digits is the last place of its number. -/
theorem Tells.lastPlace (h : Tells (.ofMantissaAndAccuracy m acc) x)
    (hdigits : e ≤ -1074 ∨ 2 ^ 52 ≤ m) :
    LastPlace (x * 2 ^ e) (Format.binary64.targetExponent (totalExponent m e)) := by
  have hbounds := h.bounds
  rw [mantissa_ofMantissaAndAccuracy] at hbounds
  have hx : 0 ≤ x := le_trans (by positivity) hbounds.1
  rw [targetExponent_totalExponent]
  refine ⟨le_max_right _ _, ?_, ?_⟩ <;> rw [abs_of_nonneg (by positivity)]
  · have hm : (m : ℚ) + 1 ≤ 2 ^ (m.log2 + 1) := by exact_mod_cast Nat.lt_log2_self
    calc x * 2 ^ e < 2 ^ (m.log2 + 1) * 2 ^ e :=
          mul_lt_mul_of_pos_right (by linarith) (by positivity)
      _ = 2 ^ ((m.log2 + 1 : ℕ) + e) := by rw [zpow_add₀ two_ne_zero, zpow_natCast]
      _ ≤ 2 ^ (max (m.log2 + e - 52) (-1074) + 53) :=
        zpow_le_zpow_right₀ one_le_two (by push_cast; omega)
  · rcases le_total (m.log2 + e - 52) (-1074) with hle | hle
    · exact Or.inl (max_eq_right hle)
    rcases eq_or_ne m 0 with rfl | hm
    · -- A mantissa without digits is one at the last place of all.
      left
      rw [Nat.log2_zero] at hle ⊢
      omega
    · right
      have hm : (2 : ℚ) ^ m.log2 ≤ m := by exact_mod_cast Nat.log2_self_le hm
      calc (2 : ℚ) ^ (max (m.log2 + e - 52) (-1074) + 52) = 2 ^ m.log2 * 2 ^ e := by
            rw [max_eq_left hle, sub_add_cancel, zpow_add₀ two_ne_zero, zpow_natCast]
        _ ≤ x * 2 ^ e := mul_le_mul_of_nonneg_right (hm.trans hbounds.1) (by positivity)

/-- A rounded mantissa has 53 digits at most, or is the next power of two; then its last
    digit is dropped, which is zero. -/
theorem shiftToTargetExponent_canonical (hleast : -1074 ≤ e) (hbelow : m ≤ 2 ^ 53)
    (habove : e = -1074 ∨ 2 ^ 52 ≤ m) {em : ExtendedMantissa} {e' : ℤ}
    (h : shiftToTargetExponent .binary64 m e .exact = (em, e')) :
    Canonical em.mantissa e' ∧ (em.mantissa : ℚ) * 2 ^ e' = m * 2 ^ e := by
  rw [shiftToTargetExponent, targetExponent_totalExponent] at h
  rcases hbelow.lt_or_eq with hlt | rfl
  · have hlog : m.log2 < 53 := by
      rcases eq_or_ne m 0 with rfl | hm
      · decide
      · exact (Nat.log2_lt hm).mpr hlt
    have hshift : (max (m.log2 + e - 52) (-1074) - e).toNat = 0 := by omega
    rw [shiftToExponent, hshift] at h
    cases h
    rw [Nat.cast_zero, add_zero]
    exact ⟨⟨hleast, hlt, habove⟩, rfl⟩
  -- The mantissa was rounded up to the next power of two.
  · have hshift : (max ((2 ^ 53 : ℕ).log2 + e - 52) (-1074) - e).toNat = 1 := by
      rw [Nat.log2_two_pow]
      omega
    rw [shiftToExponent, hshift] at h
    cases h
    have hhalf : ((ExtendedMantissa.ofMantissaAndAccuracy (2 ^ 53) .exact) >>> 1).mantissa =
        2 ^ 52 := rfl
    rw [hhalf]
    refine ⟨⟨by omega, by norm_num, Or.inr le_rfl⟩, ?_⟩
    rw [zpow_add₀ two_ne_zero]
    push_cast
    ring

/-- A mantissa with enough digits is cut off at the last place of its number. -/
theorem Tells.shiftToTargetExponent (h : Tells (.ofMantissaAndAccuracy m acc) x)
    (hdigits : e ≤ -1074 ∨ 2 ^ 52 ≤ m)
    (heq : shiftToTargetExponent .binary64 m e acc = (em, e')) :
    LastPlace (x * 2 ^ e) e' ∧ IsNearest em.roundedMantissa (x * 2 ^ e / 2 ^ e') := by
  have hplace := h.lastPlace hdigits
  have hle : e ≤ Format.binary64.targetExponent (totalExponent m e) := by
    rw [targetExponent_totalExponent]
    rcases hdigits with hleast | hm
    · omega
    · have hlog : 52 ≤ m.log2 := (Nat.le_log2 (by omega)).mpr hm
      omega
  unfold Float.Model.UnpackedFloat.shiftToTargetExponent at heq
  generalize Format.binary64.targetExponent (totalExponent m e) = t at hplace hle heq
  obtain ⟨k, rfl⟩ := Int.le.dest hle
  rw [shiftToExponent, add_sub_cancel_left, Int.toNat_natCast] at heq
  cases heq
  refine ⟨hplace, ?_⟩
  have hcut : x * 2 ^ e / 2 ^ (e + k) = x / 2 ^ k := by
    rw [zpow_add₀ two_ne_zero, zpow_natCast, mul_comm x, mul_div_mul_left _ _ (by positivity)]
  rw [hcut]
  exact (h.shiftRight k).isNearest

/-- A mantissa with enough digits is rounded as its number is. -/
theorem roundWithAccuracy_rounds (s : Sign) (h : Tells (.ofMantissaAndAccuracy m acc) x)
    (hdigits : e ≤ -1074 ∨ 2 ^ 52 ≤ m) :
    ∃ v, Rounds (x * 2 ^ e) v ∧ Denotes (roundWithAccuracy .binary64 s m e acc) (signed s v) := by
  rcases h₁ : shiftToTargetExponent .binary64 m e acc with ⟨em₁, e₁⟩
  rcases h₂ : shiftToTargetExponent .binary64 em₁.roundedMantissa e₁ .exact with ⟨em₂, e₂⟩
  obtain ⟨hplace, hnear⟩ := h.shiftToTargetExponent hdigits h₁
  have hx : 0 ≤ x := le_trans (by positivity) h.bounds.1
  have hq : 0 ≤ x * 2 ^ e := by positivity
  have hbelow : em₁.roundedMantissa ≤ 2 ^ 53 := by exact_mod_cast hplace.nearest_le hq hnear
  have habove : e₁ = -1074 ∨ 2 ^ 52 ≤ em₁.roundedMantissa :=
    or_iff_not_imp_left.mpr fun he => by exact_mod_cast hplace.le_nearest hq he hnear
  obtain ⟨hc, hvalue⟩ := shiftToTargetExponent_canonical hplace.least hbelow habove h₂
  refine ⟨em₁.roundedMantissa * 2 ^ e₁, ⟨e₁, em₁.roundedMantissa, hplace, hnear, by simp⟩, ?_⟩
  rw [← hvalue]
  simp only [roundWithAccuracy, h₁, h₂]
  split
  · rename_i hzero
    rw [hzero]
    cases s <;> simpa [signed] using Denotes.zero _
  · exact Denotes.finite s _ hc

end Binary64

end ExecutionControl
