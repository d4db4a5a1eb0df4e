import ExecutionControl.Proofs.Floats.Rounding

/-! # Floating-point arithmetic is rounded

    What an operation on finite numbers gives is the exact result, rounded. Each operation
    first computes a mantissa with enough digits, or with bits beside it that tell of the
    rest; `roundWithAccuracy_rounds` does what remains.
-/

namespace ExecutionControl

namespace Binary64

open Float.Model Float.Model.UnpackedFloat

variable {a b : UnpackedFloat} {v w : ℚ} {m : ℕ} {e t : ℤ}

/-! ### Signs -/

theorem signed_mul (s s' : Sign) (x y : ℚ) :
    signed (s * s') (x * y) = signed s x * signed s' y := by
  cases s <;> cases s'
  · exact (neg_mul_neg x y).symm
  · exact (neg_mul x y).symm
  · exact (mul_neg x y).symm
  · rfl

theorem signed_div (s s' : Sign) (x y : ℚ) :
    signed (s / s') (x / y) = signed s x / signed s' y := by
  cases s <;> cases s'
  · exact (neg_div_neg_eq x y).symm
  · exact (neg_div y x).symm
  · exact (div_neg x).symm
  · rfl

theorem signed_neg (s : Sign) (x : ℚ) : signed (-s) x = -signed s x := by
  cases s
  · exact (neg_neg x).symm
  · rfl

theorem cast_apply (s : Sign) (n : ℤ) : ((s.apply n : ℤ) : ℚ) = signed s n := by
  cases s
  · exact Int.cast_neg n
  · rfl

theorem signed_mul_right (s : Sign) (x y : ℚ) : signed s (x * y) = signed s x * y := by
  cases s
  · exact (neg_mul x y).symm
  · rfl

theorem Denotes.neg (h : Denotes a v) : Denotes a.neg (-v) := by
  cases h with
  | zero s =>
    rw [neg_zero]
    exact .zero (-s)
  | finite s hm hc =>
    rw [← signed_neg]
    exact .finite (-s) hm hc

/-! ### Sums -/

/-- A higher exponent takes no digits away. -/
theorem decreaseExponent_of_le (m : ℕ) (h : e ≤ t) : decreaseExponent m e t = (m, e) := by
  have hshift : (e - t).toNat = 0 := by omega
  rw [decreaseExponent, hshift]
  simp

/-- A lower exponent takes more digits. -/
theorem decreaseExponent_eq (m : ℕ) (h : t ≤ e) :
    decreaseExponent m e t = (m * 2 ^ (e - t).toNat, t) := by
  rw [decreaseExponent, Nat.shiftLeft_eq]
  congr 1
  omega

theorem mul_pow_toNat (m : ℕ) (h : t ≤ e) :
    ((m * 2 ^ (e - t).toNat : ℕ) : ℚ) * 2 ^ t = m * 2 ^ e := by
  push_cast
  rw [mul_assoc, ← zpow_natCast, ← zpow_add₀ two_ne_zero, Int.toNat_of_nonneg (by omega),
    sub_add_cancel]

/-- A mantissa that has too few digits for its exponent is given more. -/
theorem round_rounds (s : Sign) (hm : m ≠ 0) (e : ℤ) :
    ∃ v, Rounds (m * 2 ^ e) v ∧ Denotes (UnpackedFloat.round .binary64 s m e) (signed s v) := by
  unfold UnpackedFloat.round
  rw [targetExponent_totalExponent]
  generalize ht : max (m.log2 + e - 52) (-1074) = t
  dsimp only
  rcases le_or_gt e t with hle | hlt
  · rw [decreaseExponent_of_le m hle]
    refine roundWithAccuracy_rounds s (tells_exact m) ?_
    by_cases hlog : 52 ≤ m.log2
    · exact Or.inr ((Nat.le_log2 hm).mp hlog)
    · left
      omega
  · rw [decreaseExponent_eq m hlt.le, ← mul_pow_toNat m hlt.le]
    refine roundWithAccuracy_rounds s (tells_exact _) ?_
    by_cases hleast : t ≤ -1074
    · exact Or.inl hleast
    · right
      calc 2 ^ 52 = 2 ^ m.log2 * 2 ^ (e - t).toNat := by
            rw [← pow_add]
            congr 1
            omega
        _ ≤ m * 2 ^ (e - t).toNat := Nat.mul_le_mul_right _ (Nat.log2_self_le hm)

theorem normalize_rounds (n : ℤ) (e : ℤ) (s : Sign) :
    ∃ v, Rounds (n * 2 ^ e) v ∧ Denotes (UnpackedFloat.normalize .binary64 n e s) v := by
  unfold UnpackedFloat.normalize
  rcases lt_trichotomy n 0 with hn | rfl | hn
  · rw [compare_lt_iff_lt.mpr hn]
    obtain ⟨v, hv, hdenotes⟩ := round_rounds .negative (m := (-n).toNat) (by omega) e
    have hcast : (((-n).toNat : ℕ) : ℚ) = -n := by exact_mod_cast Int.toNat_of_nonneg (by omega)
    rw [hcast, neg_mul] at hv
    exact ⟨-v, by simpa using hv.neg, hdenotes⟩
  · refine ⟨0, ?_, .zero s⟩
    simpa using (Denotes.zero s).rounds
  · rw [compare_gt_iff_gt.mpr hn]
    obtain ⟨v, hv, hdenotes⟩ := round_rounds .positive (m := n.toNat) (by omega) e
    have hcast : ((n.toNat : ℕ) : ℚ) = n := by exact_mod_cast Int.toNat_of_nonneg hn.le
    rw [hcast] at hv
    exact ⟨v, hv, hdenotes⟩

/-- A difference is computed without loss, and rounded. -/
theorem sub_rounds (ha : Denotes a v) (hb : Denotes b w) :
    ∃ r, Rounds (v - w) r ∧ Denotes (UnpackedFloat.sub .binary64 a b) r := by
  cases ha with
  | zero s =>
    cases hb with
    | zero s' =>
      refine ⟨0, by simpa using (Denotes.zero s).rounds, ?_⟩
      simp only [UnpackedFloat.sub]
      split
      · exact .zero s
      · exact .zero .positive
    | finite s' hm hc =>
      have hneg := (Denotes.finite s' hm hc).neg
      rw [zero_sub]
      exact ⟨_, hneg.rounds, hneg⟩
  | @finite s m e hm hc =>
    cases hb with
    | zero s' =>
      rw [sub_zero]
      exact ⟨_, (Denotes.finite s hm hc).rounds, .finite s hm hc⟩
    | @finite s' m' e' hm' hc' =>
      -- Both are brought to the lower of their exponents.
      simp only [UnpackedFloat.sub, decreaseExponent_eq _ (min_le_left e e'),
        decreaseExponent_eq _ (min_le_right e e')]
      have hexact : signed s (m * 2 ^ e) - signed s' (m' * 2 ^ e') =
          ((s.apply (m * 2 ^ (e - min e e').toNat : ℕ) -
            s'.apply (m' * 2 ^ (e' - min e e').toNat : ℕ) : ℤ) : ℚ) * 2 ^ min e e' := by
        rw [Int.cast_sub, cast_apply, cast_apply, sub_mul, ← signed_mul_right, ← signed_mul_right,
          Int.cast_natCast, Int.cast_natCast, mul_pow_toNat m (min_le_left _ _),
          mul_pow_toNat m' (min_le_right _ _)]
      rw [hexact]
      exact normalize_rounds _ _ _

/-- A sum is the difference from the negative. -/
theorem add_eq_sub_neg (a b : UnpackedFloat) :
    UnpackedFloat.add .binary64 a b = UnpackedFloat.sub .binary64 a b.neg := by
  cases a with
  | finite s m e hm =>
    cases b with
    | finite s' m' e' hm' =>
      have hsign : ∀ n : ℕ, (-s').apply n = -s'.apply n := by
        intro n
        cases s'
        · exact (neg_neg _).symm
        · rfl
      simp only [UnpackedFloat.add, UnpackedFloat.sub, UnpackedFloat.neg, hsign, sub_neg_eq_add]
    | zero s' | infinity s' => cases s' <;> rfl
    | notANumber => rfl
  | zero s =>
    cases b with
    | finite s' m' e' hm' => cases s' <;> rfl
    | zero s' => cases s <;> cases s' <;> rfl
    | infinity s' => cases s' <;> rfl
    | notANumber => rfl
  | infinity s =>
    cases b with
    | infinity s' => cases s <;> cases s' <;> rfl
    | _ => rfl
  | notANumber => cases b <;> rfl

/-- A sum is computed without loss, and rounded. -/
theorem add_rounds (ha : Denotes a v) (hb : Denotes b w) :
    ∃ r, Rounds (v + w) r ∧ Denotes (UnpackedFloat.add .binary64 a b) r := by
  rw [add_eq_sub_neg, ← sub_neg_eq_add]
  exact sub_rounds ha hb.neg

/-! ### Products and quotients -/

theorem mul_rounds (s s' : Sign) {m m' : ℕ} (e e' : ℤ) (hm : 0 < m) (hm' : 0 < m')
    (hdigits : e + e' ≤ -1074 ∨ 2 ^ 52 ≤ m * m') :
    ∃ r, Rounds (signed s (m * 2 ^ e) * signed s' (m' * 2 ^ e')) r ∧
      Denotes (UnpackedFloat.mul .binary64 (.finite s m e hm) (.finite s' m' e' hm')) r := by
  obtain ⟨v, hv, hdenotes⟩ := roundWithAccuracy_rounds (s * s') (tells_exact (m * m')) hdigits
  refine ⟨signed (s * s') v, ?_, hdenotes⟩
  have hexact : signed s (m * 2 ^ e) * signed s' (m' * 2 ^ e') =
      signed (s * s') ((m * m' : ℕ) * 2 ^ (e + e')) := by
    rw [← signed_mul, zpow_add₀ two_ne_zero, mul_mul_mul_comm, Nat.cast_mul]
  rw [hexact]
  exact hv.signed _

/-- The remainder of a division tells what the whole quotient lacks. -/
theorem tells_div (m : ℕ) {d : ℕ} (hd : 0 < d) :
    Tells (.ofMantissaAndAccuracy (m / d) (accuracyOfFraction (m % d) d)) (m / d) := by
  have hpos : (0 : ℚ) < d := by exact_mod_cast hd
  have hlt : ((m % d : ℕ) : ℚ) < d := by exact_mod_cast Nat.mod_lt m hd
  have hdiv : (m : ℚ) / d = (m / d : ℕ) + ((m % d : ℕ) : ℚ) / d := by
    rw [eq_comm, ← mul_div_cancel_right₀ ((m / d : ℕ) : ℚ) hpos.ne', ← add_div]
    congr 1
    exact_mod_cast Nat.div_add_mod' m d
  rw [hdiv]
  generalize m / d = n
  generalize m % d = r at hlt
  unfold accuracyOfFraction
  rcases Nat.eq_zero_or_pos r with rfl | hr
  · rw [if_pos rfl, Nat.cast_zero, zero_div, add_zero]
    exact tells_exact n
  · have hr' : (0 : ℚ) < r := by exact_mod_cast hr
    have hfraction : (0 : ℚ) < r / d := by positivity
    rw [if_neg hr.ne']
    -- The rest compares to one half as twice the remainder does to the divisor.
    rcases lt_trichotomy (2 * r) d with h | h | h
    · have h' : (2 : ℚ) * r < d := by exact_mod_cast h
      rw [compare_lt_iff_lt.mpr h]
      refine ⟨lt_add_of_pos_right _ hfraction, add_lt_add_right ?_ _⟩
      rw [div_lt_div_iff₀ hpos two_pos]
      linarith
    · have h' : (2 : ℚ) * r = d := by exact_mod_cast h
      rw [compare_eq_iff_eq.mpr h]
      show (n : ℚ) + r / d = n + 1 / 2
      rw [← h', mul_comm, div_mul_cancel_left₀ hr'.ne', one_div]
    · have h' : (d : ℚ) < 2 * r := by exact_mod_cast h
      rw [compare_gt_iff_gt.mpr h]
      refine ⟨add_lt_add_right ?_ _, add_lt_add_right ?_ _⟩
      · rw [div_lt_div_iff₀ two_pos hpos]
        linarith
      · rwa [div_lt_one hpos]

/-- The quotient of two mantissas has enough digits. -/
theorem divCore_digits {m m' : ℕ} {e e' : ℤ} (hm : 0 < m) (hm' : 0 < m') {n : ℕ} {t : ℤ}
    {acc : Accuracy} (h : divCore .binary64 m e m' e' = (n, t, acc)) :
    (t ≤ -1074 ∨ 2 ^ 52 ≤ n) ∧
      ∃ x, Tells (.ofMantissaAndAccuracy n acc) x ∧ x * 2 ^ t = m * 2 ^ e / (m' * 2 ^ e') := by
  unfold divCore at h
  rw [targetExponent_eq, totalExponent, totalExponent] at h
  generalize ht : min (e - e') (max (m.log2 + 1 + e - (m'.log2 + 1 + e') - 53) (-1074)) = t' at h
  dsimp only at h
  have hle : t' ≤ e - e' := by omega
  rw [Nat.shiftLeft_eq] at h
  cases h
  refine ⟨?_, _, tells_div _ hm', ?_⟩
  · by_cases hleast : t ≤ -1074
    · exact Or.inl hleast
    right
    -- The quotient begins at least 53 places above its last digit.
    rw [Nat.le_div_iff_mul_le hm']
    calc 2 ^ 52 * m' ≤ 2 ^ 52 * 2 ^ (m'.log2 + 1) :=
          Nat.mul_le_mul_left _ Nat.lt_log2_self.le
      _ = 2 ^ (m'.log2 + 53) := by ring
      _ ≤ 2 ^ (m.log2 + (e - e' - t).toNat) := Nat.pow_le_pow_right two_pos (by omega)
      _ = 2 ^ m.log2 * 2 ^ (e - e' - t).toNat := pow_add _ _ _
      _ ≤ m * 2 ^ (e - e' - t).toNat := Nat.mul_le_mul_right _ (Nat.log2_self_le hm.ne')
  · rw [div_mul_eq_mul_div, mul_pow_toNat m hle, zpow_sub₀ two_ne_zero, ← mul_div_assoc, div_div,
      mul_comm (2 ^ e')]

theorem div_rounds (ha : Denotes a v) (hb : Denotes b w) (hw : w ≠ 0) :
    ∃ r, Rounds (v / w) r ∧ Denotes (UnpackedFloat.div .binary64 a b) r := by
  cases hb with
  | zero s' => exact absurd rfl hw
  | @finite s' m' e' hm' hc' =>
    cases ha with
    | zero s =>
      rw [zero_div]
      exact ⟨0, (Denotes.zero s).rounds, .zero (s / s')⟩
    | @finite s m e hm hc =>
      rcases hcore : divCore .binary64 m e m' e' with ⟨n, t, acc⟩
      obtain ⟨hdigits, x, htells, hx⟩ := divCore_digits hm hm' hcore
      obtain ⟨r, hr, hdenotes⟩ := roundWithAccuracy_rounds (s / s') htells hdigits
      rw [hx] at hr
      simp only [UnpackedFloat.div, hcore]
      rw [← signed_div]
      exact ⟨_, hr.signed _, hdenotes⟩

end Binary64

end ExecutionControl
