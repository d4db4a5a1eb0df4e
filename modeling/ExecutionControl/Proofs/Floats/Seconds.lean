import ExecutionControl.Duration
import ExecutionControl.Proofs.Floats.Order

/-! # Spans in floating-point seconds

    A span is multiplied in floating-point seconds, and the product has to be a span again. A
    number of seconds is one if it lies between zero and a whole number below 2^64
    (`Duration.ofSeconds?_of_le`). A factor of at most one does not bring a span above what it
    is rounded to, so the product of a span that lies 1024 seconds below 2^64, or further, always
    is a span (`Duration.scaled_ok`).
-/

namespace ExecutionControl

namespace Binary64

open Float.Model Float.Model.UnpackedFloat

variable {x y : Float} {v w : ℚ}

/-! ### Products -/

theorem StandsFor.mul (h : StandsFor x v) (h' : StandsFor y w) (hv : |v| < bound)
    (hw : |w| < bound) : ∃ r, Rounds (v * w) r ∧ StandsFor (x * y) (clamp r) := by
  suffices hmul : ∃ r, Rounds (v * w) r ∧
      Denotes (UnpackedFloat.mul .binary64 x.toModel.unpack y.toModel.unpack) r by
    obtain ⟨r, hr, hdenotes⟩ := hmul
    exact ⟨r, hr, standsFor_pack hdenotes⟩
  have hx := Stands.denotes h hv
  have hy := Stands.denotes h' hw
  generalize x.toModel.unpack = u at hx ⊢
  generalize y.toModel.unpack = u' at hy ⊢
  cases hx with
  | zero s =>
    rw [zero_mul]
    cases hy <;> exact ⟨0, (Denotes.zero s).rounds, .zero _⟩
  | @finite s m e hm hc =>
    cases hy with
    | zero s' =>
      rw [mul_zero]
      exact ⟨0, (Denotes.zero s').rounds, .zero _⟩
    | @finite s' m' e' hm' hc' =>
      refine mul_rounds s s' e e' hm hm' ?_
      -- One of two full mantissas suffices, and two short ones lie at the last place of all.
      rcases hc.above with he | hfull
      · rcases hc'.above with he' | hfull'
        · left
          omega
        · exact .inr (hfull'.trans (Nat.le_mul_of_pos_left m' hm))
      · exact .inr (hfull.trans (Nat.le_mul_of_pos_right m hm'))

/-! ### The parts of a number -/

theorem toNat_unpackMantissa (b : BitVec 64) :
    (@unpackMantissa .binary64 b).toNat = b.toNat % 2 ^ 52 := by
  simp [unpackMantissa, Nat.shiftRight_eq_div_pow]

theorem toNat_unpackExponent (b : BitVec 64) :
    (@unpackExponent .binary64 b).toNat = b.toNat / 2 ^ 52 % 2 ^ 11 := by
  simp [unpackExponent, Nat.shiftRight_eq_div_pow]

/-- A finite number that is not below zero has a positive sign. -/
theorem Denotes.of_finite {s : Sign} {m : ℕ} {e : ℤ} {hm : 0 < m}
    (h : Denotes (.finite s m e hm) v) (hv : 0 ≤ v) : s = .positive ∧ v = m * 2 ^ e := by
  cases h with
  | finite s _ _ =>
    have hpos : (0 : ℚ) < m * 2 ^ e := by positivity
    cases s with
    | positive => exact ⟨rfl, rfl⟩
    | negative =>
      replace hv : 0 ≤ -((m : ℚ) * 2 ^ e) := hv
      linarith

theorem toNat_unpackSign (b : BitVec 64) :
    (@unpackSign .binary64 b).toNat = b.toNat / 2 ^ 63 := by
  have hlt := b.isLt
  simp [unpackSign, Nat.shiftRight_eq_div_pow]
  omega

theorem toNat_of_positive {b : BitVec 64}
    (h : Sign.ofBitVec (@unpackSign .binary64 b) = .positive) : b.toNat < 2 ^ 63 := by
  have hsign := toNat_unpackSign b
  generalize @unpackSign .binary64 b = bit at h hsign
  have hbit : bit = 0#1 ∨ bit = 1#1 := by
    have := bit.isLt
    rw [← BitVec.toNat_inj, ← BitVec.toNat_inj]
    show bit.toNat = 0 ∨ bit.toNat = 1
    omega
  rcases hbit with rfl | rfl
  · replace hsign : 0 = b.toNat / 2 ^ 63 := hsign
    omega
  · cases h

/-- A finite number that is not below zero is read by its parts. -/
theorem Denotes.parts (h : Denotes x.toModel.unpack v) (hv : 0 ≤ v) :
    ∃ negative m e, Decimal.Parts.ofFloat x = .finite negative m e ∧ (m : ℚ) * 2 ^ e = v ∧
      (negative = true → m = 0) := by
  have hbits : x.toBits.toNat = x.toModel.toBits.toBitVec.toNat := rfl
  unfold Decimal.Parts.ofFloat
  rw [Float.Model.unpack] at h
  simp only [hbits, Nat.pow_eq]
  generalize x.toModel.toBits.toBitVec = b at h ⊢
  have hmantissa := toNat_unpackMantissa b
  have hexponent := toNat_unpackExponent b
  unfold UnpackedFloat.unpack at h
  simp only at h
  split at h
  · -- What is infinite or no number is not finite.
    split at h <;> cases h
  rename_i htop
  rw [← BitVec.toNat_inj, hexponent] at htop
  replace htop : b.toNat / 2 ^ 52 % 2 ^ 11 ≠ 2 ^ 11 - 1 := htop
  rw [if_neg htop]
  split at h
  · rename_i hleast
    rw [← BitVec.toNat_inj, hexponent] at hleast
    replace hleast : b.toNat / 2 ^ 52 % 2 ^ 11 = 0 := hleast
    rw [if_pos hleast]
    split at h
    · rename_i hzero
      rw [← BitVec.toNat_inj, hmantissa] at hzero
      replace hzero : b.toNat % 2 ^ 52 = 0 := hzero
      cases h with
      | zero s => exact ⟨_, _, _, rfl, by rw [hzero]; simp, fun _ => hzero⟩
    · obtain ⟨hs, rfl⟩ := h.of_finite hv
      refine ⟨_, _, _, rfl, ?_, fun hneg => ?_⟩
      · rw [hmantissa, hexponent, hleast]
        rfl
      · have := toNat_of_positive hs
        exact absurd (of_decide_eq_true hneg) (by omega)
  · rename_i hleast
    rw [← BitVec.toNat_inj, hexponent] at hleast
    replace hleast : b.toNat / 2 ^ 52 % 2 ^ 11 ≠ 0 := hleast
    rw [if_neg hleast]
    obtain ⟨hs, rfl⟩ := h.of_finite hv
    refine ⟨_, _, _, rfl, ?_, fun hneg => ?_⟩
    · rw [toNat_implicit, hmantissa, hexponent]
      rfl
    · have := toNat_of_positive hs
      exact absurd (of_decide_eq_true hneg) (by omega)

/-! ### Bounds -/

theorem unpack_zero : (0.0 : Float).toModel.unpack = .zero .positive := by rfl

theorem unpack_unit : (1.0 : Float).toModel.unpack =
    .finite .positive (2 ^ 52) (-52) (by decide) := by rfl

theorem unpack_billion : (1000000000.0 : Float).toModel.unpack =
    .finite .positive (1000000000 * 2 ^ 23) (-23) (by decide) := by rfl

theorem standsFor_zero : StandsFor 0.0 0 := by
  show Stands (0.0 : Float).toModel.unpack 0
  rw [unpack_zero]
  exact .finite (.zero _) (by simpa using bound_pos)

theorem standsFor_one : StandsFor 1.0 1 := by
  have hc : Canonical (2 ^ 52) (-52) := ⟨by decide, by decide, Or.inr le_rfl⟩
  have hstands := hc.stands (by decide) .positive (by decide)
  have hone : signed .positive ((2 ^ 52 : ℕ) * 2 ^ (-52 : ℤ)) = 1 := by
    simp only [signed]
    norm_num
  rw [hone] at hstands
  show Stands (1.0 : Float).toModel.unpack 1
  rw [unpack_unit]
  exact hstands

theorem rounds_one : Rounds 1 1 := by
  have hc : Canonical (2 ^ 52) (-52) := ⟨by decide, by decide, Or.inr le_rfl⟩
  have hone : ((2 ^ 52 : ℕ) : ℚ) * 2 ^ (-52 : ℤ) = 1 := by norm_num
  rw [← hone]
  exact hc.rounds

theorem rounds_billion : Rounds 1000000000 1000000000 := by
  have hc : Canonical (1000000000 * 2 ^ 23) (-23) := ⟨by decide, by decide, Or.inr (by decide)⟩
  have hbillion : ((1000000000 * 2 ^ 23 : ℕ) : ℚ) * 2 ^ (-23 : ℤ) = 1000000000 := by norm_num
  rw [← hbillion]
  exact hc.rounds

end Binary64

open Binary64

namespace Decimal

/-- A quotient that does not exceed a whole number does not do so once it is rounded. -/
theorem roundDiv_le {num den n : ℕ} (h : num ≤ n * den) (hden : 0 < den) :
    roundDiv num den ≤ n := by
  have hle : num / den ≤ n := Nat.div_le_of_le_mul (by rwa [Nat.mul_comm])
  simp only [roundDiv]
  split
  · exact hle
  · rename_i hup
    -- The quotient is not whole, and so it lies below the number.
    have hne : num / den ≠ n := by
      rintro rfl
      have hsplit := Nat.div_add_mod num den
      rw [Nat.mul_comm] at hsplit
      omega
    omega

end Decimal

namespace Duration

variable {x : Float} {v : ℚ} {d : Duration}

/-! ### Seconds that are a span -/

/-- A number from zero to a whole number below 2^64 is a number of seconds. -/
theorem ofSeconds?_of_le {n : ℕ} (h : StandsFor x v) (hv : 0 ≤ v) (hle : v ≤ n)
    (hn : n < 2 ^ 64) : ∃ d, ofSeconds? x = some d := by
  have hfinite : |v| < bound := by
    have hlt : (n : ℚ) < 2 ^ 64 := by exact_mod_cast hn
    rw [abs_of_nonneg hv]
    exact hle.trans_lt (hlt.trans (two_pow_lt_bound (by decide)))
  obtain ⟨negative, m, e, hparts, hvalue, hsign⟩ := (Stands.denotes h hfinite).parts hv
  -- The bound is carried over to the two whole numbers that are divided.
  have hnum : m * 1000000000 * 2 ^ e.toNat ≤ n * 1000000000 * 2 ^ (-e).toNat := by
    have hpow : (2 : ℚ) ^ e * 2 ^ (-e).toNat = 2 ^ e.toNat := by
      rw [← zpow_natCast, ← zpow_natCast, ← zpow_add₀ two_ne_zero]
      congr 1
      omega
    have hscaled : (m : ℚ) * 2 ^ e.toNat ≤ n * 2 ^ (-e).toNat := by
      rw [← hpow, ← mul_assoc, hvalue]
      exact mul_le_mul_of_nonneg_right hle (by positivity)
    have hwhole : m * 2 ^ e.toNat ≤ n * 2 ^ (-e).toNat := by exact_mod_cast hscaled
    calc m * 1000000000 * 2 ^ e.toNat
        = m * 2 ^ e.toNat * 1000000000 := Nat.mul_right_comm _ _ _
      _ ≤ n * 2 ^ (-e).toNat * 1000000000 := Nat.mul_le_mul_right _ hwhole
      _ = n * 1000000000 * 2 ^ (-e).toNat := Nat.mul_right_comm _ _ _
  have hround := Decimal.roundDiv_le hnum (Nat.two_pow_pos _)
  have hspan : Decimal.roundDiv (m * 1000000000 * 2 ^ e.toNat) (2 ^ (-e).toNat) <
      Nat.pow 2 64 * 1000000000 := by
    simp only [Nat.pow_eq]
    omega
  refine ⟨⟨_, hspan⟩, ?_⟩
  unfold ofSeconds?
  rw [hparts]
  simp only
  rw [if_neg fun hneg => hneg.2 (hsign hneg.1)]
  exact ofNanos?_eq_some_iff.mpr rfl

/-- The nanoseconds past the whole seconds of a span are no more than a second. -/
theorem standsFor_fraction (d : Duration) :
    ∃ f, 0 ≤ f ∧ f ≤ 1 ∧ StandsFor (Float.ofNat d.subsecNanos / 1000000000.0) f := by
  obtain ⟨g, hg, hgstands⟩ := standsFor_ofNat d.subsecNanos
  have hnanos : d.subsecNanos < 1000000000 := Nat.mod_lt _ (by decide)
  have hgnonneg : 0 ≤ g := hg.nonneg (by positivity)
  -- Rounding keeps the order, and both bounds are represented exactly.
  have hgle : g ≤ 1000000000 := hg.mono rounds_billion (by exact_mod_cast hnanos.le)
  have hbillion : (1000000000 : ℚ) < bound :=
    (by norm_num : (1000000000 : ℚ) < 2 ^ 30).trans (two_pow_lt_bound (by decide))
  have hglt : |g| < bound := by
    rw [abs_of_nonneg hgnonneg]
    exact hgle.trans_lt hbillion
  rw [clamp_of_lt hglt] at hgstands
  obtain ⟨f, hf, hbecomes⟩ := hgstands.div unpack_billion ⟨by decide, by decide, Or.inr (by decide)⟩
  have hvalue : ((1000000000 * 2 ^ 23 : ℕ) : ℚ) * 2 ^ (-23 : ℤ) = 1000000000 := by norm_num
  rw [hvalue] at hbecomes
  cases hbecomes with
  | infinite heq => exact absurd heq hglt.ne
  | @finite r _ hr =>
    have hrnonneg : 0 ≤ r := hr.nonneg (by positivity)
    have hrle : r ≤ 1 := hr.mono rounds_one (by linarith)
    have hrlt : |r| < bound := by
      rw [abs_of_nonneg hrnonneg]
      linarith
    rw [clamp_of_lt hrlt] at hf
    exact ⟨r, hrnonneg, hrle, hf⟩

/-- The seconds of a span in floating point: the whole seconds and the fraction are rounded, and
    then their sum is. -/
theorem toSeconds_rounds (d : Duration) :
    ∃ w f r : ℚ, Rounds d.secs w ∧ 0 ≤ f ∧ f ≤ 1 ∧ Rounds (w + f) r ∧
      StandsFor d.toSeconds r ∧ |r| < bound := by
  have hsecs : |(d.secs : ℚ)| ≤ 2 ^ 64 := by
    have hle : d.secs ≤ 2 ^ 64 :=
      Nat.div_le_of_le_mul (by rw [Nat.mul_comm]; exact d.nanos_lt.le)
    rw [Nat.abs_cast]
    exact_mod_cast hle
  have hlt : (2 : ℚ) ^ 64 < bound := two_pow_lt_bound (by decide)
  obtain ⟨w, hw, hwstands⟩ := standsFor_ofNat d.secs
  have hwle : |w| ≤ 2 ^ 64 := hw.abs_le_two_pow hsecs
  rw [clamp_of_lt (hwle.trans_lt hlt)] at hwstands
  obtain ⟨f, hfnonneg, hfle, hfstands⟩ := standsFor_fraction d
  have hfabs : |f| ≤ 2 ^ 64 := by
    rw [abs_of_nonneg hfnonneg]
    exact hfle.trans (by norm_num)
  obtain ⟨r, hr, hsum⟩ := hwstands.add hfstands (hwle.trans_lt hlt) (hfabs.trans_lt hlt)
  have hle : |w + f| ≤ 2 ^ 65 := calc
    |w + f| ≤ |w| + |f| := abs_add_le w f
    _ ≤ 2 ^ 64 + 2 ^ 64 := add_le_add hwle hfabs
    _ = 2 ^ 65 := by norm_num
  have hfinite : |r| < bound := (hr.abs_le_two_pow hle).trans_lt (two_pow_lt_bound (by decide))
  rw [clamp_of_lt hfinite] at hsum
  exact ⟨w, f, r, hw, hfnonneg, hfle, hr, hsum, hfinite⟩

/-! ### Products that are a span -/

theorem scaled_error {factor : Float} {o : Overflow} (h : d.scaled factor = .error o) :
    o = .span := by
  unfold scaled at h
  split at h <;> cases h
  rfl

/-- The greatest number below 2^64 is what all whole numbers are rounded to that are less than
    half way from it to 2^64. -/
theorem rounds_halfway : Rounds (2 ^ 64 - 2 ^ 10 - 1) (2 ^ 64 - 2 ^ 11) := by
  refine ⟨11, 2 ^ 53 - 1, ⟨by decide, ?_, Or.inr ?_⟩, isNearest_of_lt ?_ ?_, ?_⟩ <;> norm_num

/-- A span times a factor from zero to one is a span, unless its seconds are rounded to 2^64. -/
theorem scaled_ok {factor : Float} (hlow : 0.0 ≤ factor) (hhigh : factor ≤ 1.0)
    (hd : d.secs < 2 ^ 64 - 2 ^ 10) : ∃ product, d.scaled factor = .ok product := by
  obtain ⟨o, ho, -⟩ := le_iff_compare.mp hlow
  obtain ⟨-, q, hq⟩ := standsFor_of_compare ho
  rw [standsFor_zero.le_iff hq] at hlow
  rw [hq.le_iff standsFor_one] at hhigh
  have hqfinite : |q| < bound := by
    have hone : (1 : ℚ) < bound := two_pow_lt_bound (k := 0) (by decide)
    rw [abs_of_nonneg hlow]
    exact hhigh.trans_lt hone
  obtain ⟨w, f, r, hw, hf, hfle, hr, hstands, hfinite⟩ := d.toSeconds_rounds
  -- The whole seconds are rounded to a number that another second does not bring half way
  -- to 2^64 either.
  have hwle : w ≤ 2 ^ 64 - 2 ^ 11 := by
    have hsecs : ((d.secs + 1 : ℕ) : ℚ) ≤ (2 ^ 64 - 2 ^ 10 : ℕ) := Nat.cast_le.mpr hd
    norm_num at hsecs
    exact hw.mono rounds_halfway (by linarith)
  have hrle : r ≤ 2 ^ 64 - 2 ^ 11 := hr.mono rounds_halfway (by linarith)
  have hrnonneg : 0 ≤ r := hr.nonneg (add_nonneg (hw.nonneg (by positivity)) hf)
  obtain ⟨p, hp, hproduct⟩ := hq.mul hstands hqfinite hfinite
  have hpnonneg : 0 ≤ p := hp.nonneg (mul_nonneg hlow hrnonneg)
  have hple : p ≤ r :=
    hp.mono (Stands.denotes hstands hfinite).rounds (mul_le_of_le_one_left hrnonneg hhigh)
  rw [clamp_of_lt] at hproduct
  · have hbelow : p ≤ ((2 ^ 64 - 2 ^ 11 : ℕ) : ℚ) := by
      norm_num
      linarith
    obtain ⟨product, hspan⟩ := ofSeconds?_of_le hproduct hpnonneg hbelow (by decide)
    refine ⟨product, ?_⟩
    rw [scaled, hspan]
  · rw [abs_of_nonneg hpnonneg]
    rw [abs_of_nonneg hrnonneg] at hfinite
    exact hple.trans_lt hfinite

end Duration

end ExecutionControl
