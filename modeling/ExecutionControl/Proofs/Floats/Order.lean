import ExecutionControl.Proofs.Floats.Arithmetic
import ExecutionControl.Proofs.Floats.Packing

/-! # The order of floating-point numbers

    Rounding keeps order, and so do the operations whose results are rounded: conversions,
    quotients, sums and differences. Only comparisons with what is not a number fail.
-/

namespace ExecutionControl

namespace Binary64

open Float.Model Float.Model.UnpackedFloat

variable {x y z : Float} {v w : ℚ} {n n' : ℤ}

/-- What a floating-point number stands for. -/
def StandsFor (x : Float) (v : ℚ) : Prop := Stands x.toModel.unpack v

/-- Everything but what is marked as not a number stands for one. -/
theorem standsFor_of_isNaN (h : x.isNaN = false) : ∃ v, StandsFor x v := by
  refine (stands_unpack x.toModel).resolve_left fun hx => ?_
  have hnan : x.isNaN = x.toModel.unpack.isNaN := rfl
  rw [hnan, hx] at h
  cases h

theorem lt_iff_compare : x < y ↔ x.toModel.unpack.compare y.toModel.unpack = some .lt := by
  simp [LT.lt, Float.lt, Float.Model.lt, UnpackedFloat.lt]

theorem le_iff_compare :
    x ≤ y ↔ ∃ o ∈ x.toModel.unpack.compare y.toModel.unpack, o.isLE = true := by
  simp [LE.le, Float.le, Float.Model.le, UnpackedFloat.le, Option.any_eq_true]

theorem StandsFor.lt_iff (h : StandsFor x v) (h' : StandsFor y w) : x < y ↔ v < w := by
  rw [lt_iff_compare, Stands.compare h h', Option.some.injEq, compare_lt_iff_lt]

theorem StandsFor.le_iff (h : StandsFor x v) (h' : StandsFor y w) : x ≤ y ↔ v ≤ w := by
  rw [le_iff_compare, Stands.compare h h']
  simp [← Ordering.ne_gt_iff_isLE, compare_le_iff_le]

/-- What compares with anything stands for a number. -/
theorem standsFor_of_compare {o : Ordering}
    (h : x.toModel.unpack.compare y.toModel.unpack = some o) :
    (∃ v, StandsFor x v) ∧ ∃ w, StandsFor y w := by
  constructor
  · refine (stands_unpack x.toModel).resolve_left fun hx => ?_
    rw [hx] at h
    cases h
  · refine (stands_unpack y.toModel).resolve_left fun hy => ?_
    rw [hy] at h
    generalize x.toModel.unpack = u at h
    cases u <;> cases h

/-! ### Conversions -/

theorem unpack_one : (Float.ofBits 0x3FF0000000000000).toModel.unpack =
    .finite .positive (2 ^ 52) (-52) (by decide) := by rfl

theorem unpack_thousand : (1000.0 : Float).toModel.unpack =
    .finite .positive (1000 * 2 ^ 43) (-43) (by decide) := by rfl

/-- A number that is stored stands for what is left of it. -/
theorem standsFor_pack {u : UnpackedFloat} (h : Denotes u v) :
    StandsFor (.ofModel (Float.Model.pack u)) (clamp v) := stands_pack h

/-- A whole number is converted by a product with one. -/
theorem ofScientific_rounds {n : ℕ} (hn : n ≠ 0) :
    ∃ r, Rounds n r ∧ Denotes (UnpackedFloat.ofScientific .binary64 n 0) r := by
  have hpos : 0 < n <<< 53 := by
    rw [Nat.shiftLeft_eq]
    positivity
  obtain ⟨r, hr, hdenotes⟩ := mul_rounds .positive .positive (-53) 0 hpos
    (Nat.pow_pos (n := 0) (by decide : 0 < 10)) (Or.inr (by rw [Nat.shiftLeft_eq]; omega))
  refine ⟨r, ?_, ?_⟩
  · have hexact : signed .positive ((n <<< 53 : ℕ) * 2 ^ (-53 : ℤ)) *
        signed .positive ((10 ^ 0 : ℕ) * 2 ^ (0 : ℤ)) = n := by
      simp only [signed, Nat.shiftLeft_eq]
      push_cast
      norm_num [mul_assoc]
    rwa [hexact] at hr
  · have hlow : ¬ (0 : ℤ) < -((2 ^ Format.binary64.exponentBits : ℤ) + n.log2) := by
      show ¬ (0 : ℤ) < -(2 ^ 11 + n.log2)
      omega
    rw [UnpackedFloat.ofScientific, dif_neg hn, if_neg (by norm_num), if_neg hlow, if_pos le_rfl]
    exact hdenotes

theorem mul_one_rounds {u : UnpackedFloat} (h : Denotes u v) : ∃ r, Rounds v r ∧
    Denotes (UnpackedFloat.mul .binary64 u (.finite .positive (2 ^ 52) (-52) (by decide))) r := by
  cases h with
  | zero s => exact ⟨0, (Denotes.zero s).rounds, .zero _⟩
  | @finite s m e hm hc =>
    have hone : signed .positive ((2 ^ 52 : ℕ) * 2 ^ (-52 : ℤ)) = 1 := by
      simp only [signed]
      norm_num
    have hmul := mul_rounds s .positive e (-52) hm (by decide : 0 < 2 ^ 52)
      (Or.inr (by omega))
    rwa [hone, mul_one] at hmul

theorem standsFor_ofNat (n : ℕ) : ∃ r, Rounds n r ∧ StandsFor (Float.ofNat n) (clamp r) := by
  show ∃ r, Rounds n r ∧ StandsFor (Float.ofScientific n false 0) (clamp r)
  unfold Float.ofScientific
  split
  · -- A small number is kept as it is, and so is its product with one.
    rename_i hlt
    have hcast : n.toUInt64.toNat = n := Nat.mod_eq_of_lt (by omega)
    obtain ⟨r, hr, hdenotes⟩ := normalize_rounds (n.toUInt64.toNat : ℤ) 0 .positive
    have hx : StandsFor n.toUInt64.toFloat (clamp r) := standsFor_pack hdenotes
    rw [hcast, zpow_zero, mul_one, Int.cast_natCast] at hr
    have hfinite : |r| < bound := by
      have hc : Canonical (2 ^ 52) 1 := ⟨by decide, by decide, Or.inr le_rfl⟩
      have hle : (n : ℚ) ≤ (2 ^ 52 : ℕ) * 2 ^ (1 : ℤ) := by exact_mod_cast hlt.1.le
      rw [abs_of_nonneg (hr.nonneg (by positivity))]
      exact (hr.mono hc.rounds hle).trans_lt (hc.lt_bound (by decide))
    rw [clamp_of_lt hfinite] at hx
    obtain ⟨r', hr', hmul⟩ := mul_one_rounds (Stands.denotes hx hfinite)
    refine ⟨r', ?_, ?_⟩
    · rwa [hr'.unique hdenotes.rounds]
    · rw [← unpack_one] at hmul
      exact standsFor_pack hmul
  · rename_i hlt
    have hn : n ≠ 0 := by
      rintro rfl
      exact hlt ⟨by decide, by decide⟩
    obtain ⟨r, hr, hdenotes⟩ := ofScientific_rounds hn
    exact ⟨r, hr, standsFor_pack hdenotes⟩

theorem standsFor_pack_infinity (s : Sign) :
    StandsFor (.ofModel (Float.Model.pack (.infinity s))) (signed s bound) := by
  have hunpack : (Float.Model.pack (.infinity s)).unpack = .infinity s := by cases s <;> rfl
  show Stands (Float.Model.pack (.infinity s)).unpack _
  rw [hunpack]
  exact .infinite s

theorem StandsFor.neg (h : StandsFor x v) : StandsFor (-x) (-v) := by
  show StandsFor (.ofModel (Float.Model.pack x.toModel.unpack.neg)) (-v)
  unfold StandsFor at h
  generalize x.toModel.unpack = u at h ⊢
  cases h with
  | finite hu hlt =>
    have hclamp := clamp_neg v
    rw [clamp_of_lt hlt] at hclamp
    rw [← hclamp]
    exact standsFor_pack hu.neg
  | infinite s =>
    rw [← signed_neg]
    exact standsFor_pack_infinity (-s)

theorem standsFor_ofInt (n : ℤ) : ∃ r, Rounds n r ∧ StandsFor (Float.ofInt n) (clamp r) := by
  cases n with
  | ofNat n => exact standsFor_ofNat n
  | negSucc n =>
    obtain ⟨r, hr, hstands⟩ := standsFor_ofNat (n + 1)
    refine ⟨-r, ?_, ?_⟩
    · rw [Int.cast_negSucc]
      exact hr.neg
    · rw [clamp_neg]
      exact hstands.neg

/-- The conversion of whole numbers keeps their order. -/
theorem ofInt_mono (h : n ≤ n') : Float.ofInt n ≤ Float.ofInt n' := by
  obtain ⟨r, hr, hstands⟩ := standsFor_ofInt n
  obtain ⟨r', hr', hstands'⟩ := standsFor_ofInt n'
  rw [hstands.le_iff hstands']
  exact clamp_mono (hr.mono hr' (by exact_mod_cast h))

/-! ### Quotients, sums and differences -/

/-- What becomes of the number that an operation is applied to, if it has an exact result:
    that is rounded and stored, but infinite numbers stay what they are. -/
inductive Becomes (v exact : ℚ) : ℚ → Prop
  | finite {r : ℚ} : |v| < bound → Rounds exact r → Becomes v exact (clamp r)
  | infinite : |v| = bound → Becomes v exact v

theorem Becomes.mono {v v' q q' w w' : ℚ} (h : Becomes v q w) (h' : Becomes v' q' w')
    (hv : v ≤ v') (hq : q ≤ q') : w ≤ w' := by
  cases h with
  | @finite r hlt hr =>
    cases h' with
    | finite _ hr' => exact clamp_mono (hr.mono hr' hq)
    | infinite heq' =>
      -- What is not below a finite number is not minus infinity.
      have hv' : 0 ≤ v' := by
        by_contra hneg
        rw [abs_of_neg (not_le.mp hneg)] at heq'
        linarith [(abs_lt.mp hlt).1]
      rw [abs_of_nonneg hv'] at heq'
      linarith [(abs_le.mp (abs_clamp_le r)).2]
  | infinite heq =>
    cases h' with
    | @finite r' hlt' hr' =>
      have hneg : v ≤ 0 := by
        by_contra hpos
        rw [abs_of_pos (not_le.mp hpos)] at heq
        linarith [(abs_lt.mp hlt').2]
      rw [abs_of_nonpos hneg] at heq
      linarith [(abs_le.mp (abs_clamp_le r')).1]
    | infinite _ => exact hv

/-- A quotient by a positive finite number. -/
theorem StandsFor.div {d : Float} {m : ℕ} {e : ℤ} {hm : 0 < m} (h : StandsFor x v)
    (hd : d.toModel.unpack = .finite .positive m e hm) (hc : Canonical m e) :
    ∃ w, StandsFor (x / d) w ∧ Becomes v (v / (m * 2 ^ e)) w := by
  show ∃ w, StandsFor (.ofModel (Float.Model.pack (UnpackedFloat.div .binary64 x.toModel.unpack
    d.toModel.unpack))) w ∧ _
  rw [hd]
  unfold StandsFor at h
  generalize x.toModel.unpack = u at h ⊢
  cases h with
  | finite hu hlt =>
    have hpos : (0 : ℚ) < m * 2 ^ e := by positivity
    obtain ⟨r, hr, hdenotes⟩ := div_rounds hu (.finite .positive hm hc) hpos.ne'
    exact ⟨_, standsFor_pack hdenotes, .finite hlt hr⟩
  | infinite s =>
    refine ⟨_, ?_, .infinite (by rw [abs_signed, abs_of_pos bound_pos])⟩
    cases s
    · exact standsFor_pack_infinity .negative
    · exact standsFor_pack_infinity .positive

theorem StandsFor.div_thousand (h : StandsFor x v) :
    ∃ w, StandsFor (x / 1000.0) w ∧ Becomes v (v / 1000) w := by
  have hvalue : ((1000 * 2 ^ 43 : ℕ) : ℚ) * 2 ^ (-43 : ℤ) = 1000 := by norm_num
  obtain ⟨w, hw, hbecomes⟩ := h.div unpack_thousand ⟨by decide, by decide, Or.inr (by decide)⟩
  rw [hvalue] at hbecomes
  exact ⟨w, hw, hbecomes⟩

/-- A quotient by a thousand keeps order. -/
theorem div_thousand_mono (h : x ≤ y) : x / 1000.0 ≤ y / 1000.0 := by
  obtain ⟨o, ho, -⟩ := le_iff_compare.mp h
  obtain ⟨⟨v, hv⟩, w, hw⟩ := standsFor_of_compare ho
  obtain ⟨v', hv', hdiv⟩ := hv.div_thousand
  obtain ⟨w', hw', hdiv'⟩ := hw.div_thousand
  rw [hv.le_iff hw] at h
  rw [hv'.le_iff hw']
  exact hdiv.mono hdiv' h (by linarith)

/-- The sum of two finite numbers. -/
theorem StandsFor.add (h : StandsFor x v) (h' : StandsFor y w) (hv : |v| < bound)
    (hw : |w| < bound) : ∃ r, Rounds (v + w) r ∧ StandsFor (x + y) (clamp r) := by
  obtain ⟨r, hr, hdenotes⟩ := add_rounds (Stands.denotes h hv) (Stands.denotes h' hw)
  exact ⟨r, hr, standsFor_pack hdenotes⟩

/-- A finite number taken off. -/
theorem StandsFor.sub {d : Float} (h : StandsFor x v) (hd : StandsFor d w) (hw : |w| < bound) :
    ∃ q, StandsFor (x - d) q ∧ Becomes v (v - w) q := by
  have hd := Stands.denotes hd hw
  show ∃ q, StandsFor (.ofModel (Float.Model.pack (UnpackedFloat.sub .binary64 x.toModel.unpack
    d.toModel.unpack))) q ∧ _
  unfold StandsFor at h
  generalize x.toModel.unpack = u at h ⊢
  generalize d.toModel.unpack = u' at hd ⊢
  cases h with
  | finite hu hlt =>
    obtain ⟨r, hr, hdenotes⟩ := sub_rounds hu hd
    exact ⟨_, standsFor_pack hdenotes, .finite hlt hr⟩
  | infinite s =>
    refine ⟨_, ?_, .infinite (by rw [abs_signed, abs_of_pos bound_pos])⟩
    cases hd <;> exact standsFor_pack_infinity s

theorem not_standsFor_notANumber : ¬ StandsFor (.ofModel (Float.Model.pack .notANumber)) v := by
  intro h
  have hunpack : (Float.Model.pack .notANumber).unpack = .notANumber := rfl
  have hstands : Stands (Float.Model.pack .notANumber).unpack v := h
  rw [hunpack] at hstands
  cases hstands with
  | finite hu _ => cases hu

/-- An infinite number taken off a different one. -/
theorem StandsFor.sub_infinite {d : Float} {s : Sign} (h : StandsFor x v)
    (hd : d.toModel.unpack = .infinity s) (hne : v ≠ signed s bound) :
    StandsFor (x - d) (-signed s bound) := by
  show StandsFor (.ofModel (Float.Model.pack (UnpackedFloat.sub .binary64 x.toModel.unpack
    d.toModel.unpack))) _
  rw [hd, ← signed_neg]
  unfold StandsFor at h
  generalize x.toModel.unpack = u at h ⊢
  cases h with
  | finite hu hlt => cases hu <;> exact standsFor_pack_infinity (-s)
  | infinite s' =>
    cases s <;> cases s'
    · exact absurd rfl hne
    · exact standsFor_pack_infinity .positive
    · exact standsFor_pack_infinity .negative
    · exact absurd rfl hne

/-- From an infinite number no number remains if the same one is taken off. -/
theorem StandsFor.ne_of_sub_infinite {d : Float} {s : Sign} (h : StandsFor x v)
    (hd : d.toModel.unpack = .infinity s) (hsub : StandsFor (x - d) w) : v ≠ signed s bound := by
  have hpos := bound_pos
  replace hsub : StandsFor (.ofModel (Float.Model.pack (UnpackedFloat.sub .binary64
    x.toModel.unpack d.toModel.unpack))) w := hsub
  rw [hd] at hsub
  unfold StandsFor at h
  generalize x.toModel.unpack = u at h hsub
  cases h with
  | finite hu hlt =>
    rintro rfl
    rw [abs_signed, abs_of_pos hpos] at hlt
    exact lt_irrefl _ hlt
  | infinite s' =>
    cases s <;> cases s' <;> simp only [signed]
    · exact absurd hsub not_standsFor_notANumber
    · linarith
    · linarith
    · exact absurd hsub not_standsFor_notANumber

/-- Taking the same number off keeps order, below whatever is a number. -/
theorem sub_lt_of_le {d : Float} (h : x ≤ y) (h' : y - d < z) : x - d < z := by
  obtain ⟨o, ho, -⟩ := le_iff_compare.mp h
  obtain ⟨⟨v, hv⟩, w, hw⟩ := standsFor_of_compare ho
  obtain ⟨⟨q, hq⟩, t, ht⟩ := standsFor_of_compare (lt_iff_compare.mp h')
  rw [hv.le_iff hw] at h
  rcases stands_unpack d.toModel with hd | ⟨p, hp⟩
  · replace hq : StandsFor (.ofModel (Float.Model.pack (UnpackedFloat.sub .binary64
      y.toModel.unpack d.toModel.unpack))) q := hq
    rw [hd] at hq
    generalize y.toModel.unpack = u at hq
    cases u <;> exact absurd hq not_standsFor_notANumber
  generalize hu : d.toModel.unpack = u at hp
  cases hp with
  | finite hd hlt =>
    have hd : StandsFor d p := by
      rw [StandsFor, hu]
      exact .finite hd hlt
    obtain ⟨v', hv', hsub⟩ := hv.sub hd hlt
    obtain ⟨w', hw', hsub'⟩ := hw.sub hd hlt
    rw [hw'.lt_iff ht] at h'
    rw [hv'.lt_iff ht]
    exact (hsub.mono hsub' h (by linarith)).trans_lt h'
  | infinite s =>
    have hne := hw.ne_of_sub_infinite hu hq
    rw [(hw.sub_infinite hu hne).lt_iff ht] at h'
    cases s
    · -- Nothing lies above infinity.
      rw [signed, neg_neg] at h'
      linarith [(abs_le.mp (Stands.abs_le ht)).2]
    · have hlt : v ≠ signed .positive bound :=
        (h.trans_lt (lt_of_le_of_ne (abs_le.mp (Stands.abs_le hw)).2 hne)).ne
      rwa [(hv.sub_infinite hu hlt).lt_iff ht]

end Binary64

end ExecutionControl
