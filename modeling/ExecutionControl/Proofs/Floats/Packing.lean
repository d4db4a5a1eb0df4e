import ExecutionControl.Proofs.Floats.Rounding

/-! # Floating-point numbers in 64 bits

    A number that is stored in 64 bits and read again stays what it is, unless it is too
    large for them; then it becomes infinite. `Stands` says what stored numbers stand for,
    and `stands_pack` what becomes of a result that is stored. Comparisons of stored numbers
    are those of what they stand for (`Stands.compare`).
-/

namespace ExecutionControl

namespace Binary64

open Float.Model Float.Model.UnpackedFloat

variable {u u' : UnpackedFloat} {v v' : ℚ} {m m' : ℕ} {e e' : ℤ}

/-! ### Packing -/

theorem unpackSign_packComponents (f : Format) (s : Sign) (exponent : BitVec f.exponentBits)
    (mantissa : BitVec f.mantissaBitsWithoutImplicit) :
    unpackSign (packComponents f s exponent mantissa) = s.toBitVec := by
  ext i hi
  obtain rfl : i = 0 := by omega
  simp [unpackSign, packComponents, BitVec.getLsbD_append, BitVec.getElem_append]

theorem ofBitVec_toBitVec (s : Sign) : Sign.ofBitVec s.toBitVec = s := by cases s <;> rfl

theorem toNat_implicit (mv : BitVec 52) : (1#1 ++ mv).toNat = 2 ^ 52 + mv.toNat := by
  rw [BitVec.toNat_append, ← Nat.shiftLeft_add_eq_or_of_lt mv.isLt, Nat.shiftLeft_eq]
  rfl

/-- What is packed from its parts. -/
theorem unpack_packComponents (s : Sign) (exponent : BitVec 11) (mantissa : BitVec 52) :
    UnpackedFloat.unpack .binary64 (packComponents .binary64 s exponent mantissa) =
      if exponent = -1#11 then if mantissa = 0#52 then .infinity s else .notANumber
      else if exponent = 0#11 then
        if h : mantissa = 0#52 then .zero s
        else .finite s mantissa.toNat ((exponent.toNat : ℤ) - 1075 + 1)
          (by simpa [BitVec.toNat_pos, BitVec.pos_iff_ne_zero])
      else .finite s (2 ^ 52 + mantissa.toNat) ((exponent.toNat : ℤ) - 1075) (by omega) := by
  unfold UnpackedFloat.unpack
  simp only [unpackMantissa_packComponents, unpackExponent_packComponents,
    unpackSign_packComponents, ofBitVec_toBitVec, toNat_implicit]
  rfl

/-- How a finite number is packed: beyond the greatest exponent as infinity, and without its
    first digit if it has 53. -/
theorem pack_finite (hm : 0 < m) (s : Sign) :
    UnpackedFloat.pack .binary64 (.finite s m e hm) =
      if 2 ^ 11 ≤ (e + 1075).toNat + 1 then packComponents .binary64 s (-1#11) 0#52
      else if m.log2 + 1 = 53 then
        packComponents .binary64 s (BitVec.ofNat 11 (e + 1075).toNat) (BitVec.ofNat 52 m)
      else packComponents .binary64 s 0#11 (BitVec.ofNat 52 m) := by
  have hbias : e + Format.binary64.exponentBias + Format.binary64.mantissaBitsWithoutImplicit =
      e + 1075 := by
    show e + 1023 + 52 = e + 1075
    omega
  simp only [UnpackedFloat.pack, hbias]
  rfl

theorem unpack_pack_of_lt (hm : 0 < m) (s : Sign) (he : 971 < e) :
    UnpackedFloat.unpack .binary64 (UnpackedFloat.pack .binary64 (.finite s m e hm)) =
      .infinity s := by
  rw [pack_finite, if_pos (by omega), unpack_packComponents, if_pos rfl, if_pos rfl]

theorem unpack_pack_of_le (hm : 0 < m) (hc : Canonical m e) (s : Sign) (he : e ≤ 971) :
    UnpackedFloat.unpack .binary64 (UnpackedFloat.pack .binary64 (.finite s m e hm)) =
      .finite s m e hm := by
  have hleast := hc.least
  have hbelow := hc.below
  have hlow : (BitVec.ofNat 52 m).toNat = m % 2 ^ 52 := BitVec.toNat_ofNat _ _
  rw [pack_finite, if_neg (by omega)]
  by_cases hfull : 2 ^ 52 ≤ m
  · -- The first of 53 digits is left out and put back.
    have hlog : m.log2 + 1 = 53 := by
      have := (Nat.le_log2 hm.ne').mpr hfull
      have := (Nat.log2_lt hm.ne').mpr hbelow
      omega
    have hexp : (BitVec.ofNat 11 (e + 1075).toNat).toNat = (e + 1075).toNat := by
      rw [BitVec.toNat_ofNat, Nat.mod_eq_of_lt (by omega)]
    have hne : BitVec.ofNat 11 (e + 1075).toNat ≠ -1#11 := by
      rw [ne_eq, ← BitVec.toNat_inj, hexp]
      show (e + 1075).toNat ≠ 2047
      omega
    have hne' : BitVec.ofNat 11 (e + 1075).toNat ≠ 0#11 := by
      rw [ne_eq, ← BitVec.toNat_inj, hexp]
      show (e + 1075).toNat ≠ 0
      omega
    rw [if_pos hlog, unpack_packComponents, if_neg hne, if_neg hne']
    congr 1 <;> omega
  · have hlog : m.log2 + 1 ≠ 53 := by
      have := (Nat.log2_lt hm.ne').mpr (not_le.mp hfull)
      omega
    have hne : BitVec.ofNat 52 m ≠ 0#52 := by
      rw [ne_eq, ← BitVec.toNat_inj, hlow]
      show m % 2 ^ 52 ≠ 0
      omega
    rw [if_neg hlog, unpack_packComponents, if_neg (by decide), if_pos rfl, dif_neg hne]
    congr 1
    · omega
    · show ((0 : ℕ) : ℤ) - 1075 + 1 = e
      have := hc.above.resolve_right hfull
      omega


/-! ### What stored numbers stand for -/

/-- Finite numbers lie below this bound. -/
@[irreducible] def bound : ℚ := 2 ^ (1024 : ℤ)

theorem bound_pos : 0 < bound := by
  unfold bound
  positivity

theorem two_pow_lt_bound {k : ℕ} (hk : k < 1024) : (2 : ℚ) ^ k < bound := by
  rw [bound, ← zpow_natCast]
  exact zpow_lt_zpow_right₀ one_lt_two (by omega)

/-- What a number of 64 bits stands for. Infinity stands for the bound of the finite numbers,
    as far as comparisons go. -/
inductive Stands : UnpackedFloat → ℚ → Prop
  | finite {u : UnpackedFloat} {v : ℚ} : Denotes u v → |v| < bound → Stands u v
  | infinite (s : Sign) : Stands (.infinity s) (signed s bound)

/-- What is left of a number in 64 bits. -/
def clamp (v : ℚ) : ℚ := max (-bound) (min v bound)

theorem clamp_mono (h : v ≤ v') : clamp v ≤ clamp v' :=
  max_le_max le_rfl (min_le_min h le_rfl)

theorem clamp_of_lt (h : |v| < bound) : clamp v = v := by
  rw [abs_lt] at h
  rw [clamp, min_eq_left h.2.le, max_eq_right h.1.le]

theorem clamp_neg (v : ℚ) : clamp (-v) = -clamp v := by
  have hbound : -bound ≤ bound := by linarith [bound_pos]
  rw [clamp, clamp, neg_sup, neg_inf, neg_neg, max_min_distrib_left, max_eq_right hbound,
    min_comm, max_comm]

theorem abs_clamp_le (v : ℚ) : |clamp v| ≤ bound := by
  have hpos := bound_pos
  rw [abs_le, clamp]
  exact ⟨le_max_left _ _, max_le (by linarith) (min_le_right _ _)⟩

theorem abs_signed (s : Sign) (x : ℚ) : |signed s x| = |x| := by
  cases s
  · exact abs_neg x
  · rfl

theorem Stands.abs_le (h : Stands u v) : |v| ≤ bound := by
  cases h with
  | finite _ hlt => exact hlt.le
  | infinite s => rw [abs_signed, abs_of_pos bound_pos]

/-- What is not infinite is finite. -/
theorem Stands.denotes (h : Stands u v) (hv : |v| < bound) : Denotes u v := by
  cases h with
  | finite hu _ => exact hu
  | infinite s =>
    rw [abs_signed, abs_of_pos bound_pos] at hv
    exact absurd hv (lt_irrefl _)

theorem Canonical.lt_bound (h : Canonical m e) (he : e ≤ 971) : (m : ℚ) * 2 ^ e < bound := by
  calc (m : ℚ) * 2 ^ e ≤ |(m : ℚ) * 2 ^ e| := le_abs_self _
    _ < 2 ^ (e + 53) := h.lastPlace.below
    _ ≤ bound := by
      rw [bound]
      exact zpow_le_zpow_right₀ one_le_two (by omega)

theorem Canonical.bound_le (h : Canonical m e) (he : 971 < e) : bound ≤ (m : ℚ) * 2 ^ e := by
  calc bound ≤ 2 ^ (e + 52) := by
        rw [bound]
        exact zpow_le_zpow_right₀ one_le_two (by omega)
    _ ≤ |(m : ℚ) * 2 ^ e| := h.lastPlace.above.resolve_left (by omega)
    _ = (m : ℚ) * 2 ^ e := abs_of_nonneg (by positivity)

theorem Canonical.abs_signed_lt (h : Canonical m e) (he : e ≤ 971) (s : Sign) :
    |signed s (m * 2 ^ e)| < bound := by
  rw [abs_signed, abs_of_nonneg (by positivity)]
  exact h.lt_bound he

theorem Canonical.stands (h : Canonical m e) (hm : 0 < m) (s : Sign) (he : e ≤ 971) :
    Stands (.finite s m e hm) (signed s (m * 2 ^ e)) :=
  .finite (.finite s hm h) (h.abs_signed_lt he s)

/-- A result that is stored stands for what is left of it. -/
theorem stands_pack (h : Denotes u v) : Stands (Float.Model.pack u).unpack (clamp v) := by
  show Stands (UnpackedFloat.unpack .binary64 (UnpackedFloat.pack .binary64 u)) _
  cases h with
  | zero s =>
    have hzero : |(0 : ℚ)| < bound := by simpa using bound_pos
    have hunpack : UnpackedFloat.unpack .binary64 (UnpackedFloat.pack .binary64 (.zero s)) =
        .zero s := by cases s <;> rfl
    rw [hunpack, clamp_of_lt hzero]
    exact .finite (.zero s) hzero
  | @finite s m e hm hc =>
    rcases le_or_gt e 971 with he | he
    · rw [unpack_pack_of_le hm hc s he, clamp_of_lt (hc.abs_signed_lt he s)]
      exact hc.stands hm s he
    · have hle := hc.bound_le he
      have hclamp : clamp (signed s (m * 2 ^ e)) = signed s bound := by
        have hpos := bound_pos
        cases s
        · rw [clamp, signed, signed, min_eq_left (by linarith), max_eq_left (by linarith)]
        · rw [clamp, signed, signed, min_eq_right hle, max_eq_right (by linarith)]
      rw [unpack_pack_of_lt hm s he, hclamp]
      exact .infinite s

/-- Whatever is stored is read by its parts. -/
theorem exists_unpack_eq (b : BitVec Format.binary64.numBits) :
    ∃ (s : Sign) (exponent : BitVec 11) (mantissa : BitVec 52),
      UnpackedFloat.unpack .binary64 b =
        UnpackedFloat.unpack .binary64 (packComponents .binary64 s exponent mantissa) := by
  refine ⟨Sign.ofBitVec (unpackSign b), unpackExponent b, unpackMantissa b, ?_⟩
  rw [unpack_packComponents]
  unfold UnpackedFloat.unpack
  simp only [toNat_implicit]
  rfl

/-- Whatever is stored stands for a number, or is not one. -/
theorem stands_unpack (x : Float.Model) : x.unpack = .notANumber ∨ ∃ v, Stands x.unpack v := by
  obtain ⟨s, exponent, mantissa, hunpack⟩ := exists_unpack_eq x.toBits.toBitVec
  rw [unpack_packComponents] at hunpack
  have hmantissa : mantissa.toNat < 2 ^ 52 := mantissa.isLt
  have hexponent : exponent.toNat < 2048 := exponent.isLt
  rw [Float.Model.unpack, hunpack]
  split
  · split
    · exact Or.inr ⟨_, .infinite s⟩
    · exact Or.inl rfl
  · rename_i hne
    rw [← BitVec.toNat_inj] at hne
    have hne : exponent.toNat ≠ 2047 := hne
    right
    split
    · rename_i hzero
      split
      · exact ⟨0, .finite (.zero s) (by simpa using bound_pos)⟩
      -- A number below the normal ones has no leading digit of its own.
      · have hzero : exponent.toNat = 0 := by rw [hzero]; rfl
        have hc : Canonical mantissa.toNat ((exponent.toNat : ℤ) - 1075 + 1) :=
          ⟨by omega, by omega, Or.inl (by omega)⟩
        exact ⟨_, hc.stands _ s (by omega)⟩
    · rename_i hzero
      rw [← BitVec.toNat_inj] at hzero
      have hzero : exponent.toNat ≠ 0 := hzero
      have hc : Canonical (2 ^ 52 + mantissa.toNat) ((exponent.toNat : ℤ) - 1075) :=
        ⟨by omega, by omega, Or.inr (by omega)⟩
      exact ⟨_, hc.stands _ s (by omega)⟩

/-! ### Order -/

/-- Of two numbers the one with the higher exponent is greater. -/
theorem Canonical.lt_of_exponent_lt (h : Canonical m e) (h' : Canonical m' e') (he : e < e') :
    (m : ℚ) * 2 ^ e < m' * 2 ^ e' := by
  by_contra hle
  have habs : |(m' : ℚ) * 2 ^ e'| ≤ |(m : ℚ) * 2 ^ e| := by
    rw [abs_of_nonneg (by positivity), abs_of_nonneg (by positivity)]
    exact not_lt.mp hle
  have := h'.lastPlace.mono h.lastPlace habs
  omega

/-- Positive numbers compare by exponents first. -/
theorem Canonical.compare (h : Canonical m e) (h' : Canonical m' e') :
    (compare e e').then (compare m m') = compare ((m : ℚ) * 2 ^ e) (m' * 2 ^ e') := by
  rcases lt_trichotomy e e' with he | rfl | he
  · rw [compare_lt_iff_lt.mpr he, compare_lt_iff_lt.mpr (h.lt_of_exponent_lt h' he)]
    rfl
  · have hpos : (0 : ℚ) < 2 ^ e := by positivity
    rw [compare_eq_iff_eq.mpr rfl]
    show Ord.compare m m' = _
    rcases lt_trichotomy m m' with hm | rfl | hm
    · have hm' : (m : ℚ) < m' := by exact_mod_cast hm
      rw [compare_lt_iff_lt.mpr hm, compare_lt_iff_lt.mpr (mul_lt_mul_of_pos_right hm' hpos)]
    · rw [compare_eq_iff_eq.mpr rfl, compare_eq_iff_eq.mpr rfl]
    · have hm' : (m' : ℚ) < m := by exact_mod_cast hm
      rw [compare_gt_iff_gt.mpr hm, compare_gt_iff_gt.mpr (mul_lt_mul_of_pos_right hm' hpos)]
  · rw [compare_gt_iff_gt.mpr he, compare_gt_iff_gt.mpr (h'.lt_of_exponent_lt h he)]
    rfl

theorem compare_neg (x y : ℚ) : compare (-x) (-y) = (compare x y).swap := by
  rcases lt_trichotomy x y with h | rfl | h
  · rw [compare_lt_iff_lt.mpr h, compare_gt_iff_gt.mpr (neg_lt_neg h)]
    rfl
  · rw [compare_eq_iff_eq.mpr rfl, compare_eq_iff_eq.mpr rfl]
    rfl
  · rw [compare_gt_iff_gt.mpr h, compare_lt_iff_lt.mpr (neg_lt_neg h)]
    rfl

theorem Denotes.compare (h : Denotes u v) (h' : Denotes u' v') :
    u.compare u' = some (compare v v') := by
  have hpos : ∀ {m : ℕ} {e : ℤ}, 0 < m → (0 : ℚ) < m * 2 ^ e := by
    intro m e hm
    have : (0 : ℚ) < m := by exact_mod_cast hm
    positivity
  -- The signs decide, unless they are the same.
  cases h with
  | zero s =>
    cases h' with
    | zero s' => rw [compare_eq_iff_eq.mpr rfl]; rfl
    | finite s' hm' hc' =>
      cases s'
      · rw [signed, compare_gt_iff_gt.mpr (neg_neg_of_pos (hpos hm'))]; rfl
      · rw [signed, compare_lt_iff_lt.mpr (hpos hm')]; rfl
  | finite s hm hc =>
    cases h' with
    | zero s' =>
      cases s
      · rw [signed, compare_lt_iff_lt.mpr (neg_neg_of_pos (hpos hm))]; rfl
      · rw [signed, compare_gt_iff_gt.mpr (hpos hm)]; rfl
    | finite s' hm' hc' =>
      cases s <;> cases s' <;> simp only [signed]
      · rw [compare_neg, ← hc.compare hc']; rfl
      · rw [compare_lt_iff_lt.mpr ((neg_neg_of_pos (hpos hm)).trans (hpos hm'))]; rfl
      · rw [compare_gt_iff_gt.mpr ((neg_neg_of_pos (hpos hm')).trans (hpos hm))]; rfl
      · rw [← hc.compare hc']; rfl

/-- Stored numbers compare as what they stand for. -/
theorem Stands.compare (h : Stands u v) (h' : Stands u' v') :
    u.compare u' = some (compare v v') := by
  have hbound := bound_pos
  cases h with
  | finite hu hlt =>
    cases h' with
    | finite hu' hlt' => exact hu.compare hu'
    -- Every finite number lies between the two infinite ones.
    | infinite s' =>
      obtain ⟨hlow, hhigh⟩ := abs_lt.mp hlt
      cases s'
      · rw [signed, compare_gt_iff_gt.mpr hlow]
        cases hu <;> rfl
      · rw [signed, compare_lt_iff_lt.mpr hhigh]
        cases hu <;> rfl
  | infinite s =>
    cases h' with
    | finite hu' hlt' =>
      obtain ⟨hlow, hhigh⟩ := abs_lt.mp hlt'
      cases s
      · rw [signed, compare_lt_iff_lt.mpr hlow]
        cases hu' <;> rfl
      · rw [signed, compare_gt_iff_gt.mpr hhigh]
        cases hu' <;> rfl
    | infinite s' =>
      have hneg : -bound < bound := by linarith
      cases s <;> cases s' <;> simp only [signed]
      · rw [compare_eq_iff_eq.mpr rfl]; rfl
      · rw [compare_lt_iff_lt.mpr hneg]; rfl
      · rw [compare_gt_iff_gt.mpr hneg]; rfl
      · rw [compare_eq_iff_eq.mpr rfl]; rfl

end Binary64

end ExecutionControl
