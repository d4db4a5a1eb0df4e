import ExecutionControl.Proofs.Numerals
import ExecutionControl.Timestamp.Reader
import ExecutionControl.Timestamp.Text
import Mathlib.Data.Nat.Digits.Defs

/-! # Times that are written and read back

    A time in the form of status records is read back as the same time (`readStrict_offsetText`),
    if its year has four digits and it lies in no leap second. The parts of the text are taken
    one after another, in the order in which they were written: each has a fixed width but the
    fraction, which ends where the zone begins.

    `notAfter` orders times, by their seconds and then by what is left.
-/

namespace ExecutionControl

/-! ### Padded numbers -/

namespace Text

variable {width n : Nat}

theorem toList_zeroPadded (width n : Nat) : (zeroPadded width n).toList =
    List.replicate (width - (toString n).length) '0' ++ (toString n).toList := by
  simp [zeroPadded]

theorem isDigit_of_mem_zeroPadded {c : Char} (h : c ∈ (zeroPadded width n).toList) :
    c.isDigit := by
  rw [toList_zeroPadded, List.mem_append] at h
  rcases h with hzero | hdigit
  · rw [List.eq_of_mem_replicate hzero]
    rfl
  · exact isDigit_of_mem_toString hdigit

/-- Zeros at the front do not count. -/
theorem ofDigitChars_zeroPadded (width n : Nat) :
    Nat.ofDigitChars 10 (zeroPadded width n).toList 0 = n := by
  rw [toList_zeroPadded, Nat.ofDigitChars_append, Nat.ofDigitChars_replicate_zero, Nat.mul_zero,
    ofDigitChars_toString]

theorem length_zeroPadded (hwidth : 0 < width) (hn : n < 10 ^ width) :
    (zeroPadded width n).toList.length = width := by
  have hle : (toString n).length ≤ width := Nat.repr_length n width hwidth hn
  rw [toList_zeroPadded, List.length_append, List.length_replicate, String.length_toList]
  omega

theorem digitValue?_isSome_of_mem_zeroPadded {c : Char} (h : c ∈ (zeroPadded width n).toList) :
    (digitValue? c).isSome := by
  rw [digitValue?_of_isDigit (isDigit_of_mem_zeroPadded h)]
  rfl

end Text

/-! ### Dates -/

namespace Date

theorem month_bounds (n : Int) : 1 ≤ (ofDayNumber n).month ∧ (ofDayNumber n).month ≤ 12 := by
  obtain ⟨hw₀, hw₁⟩ := day_within_year (d := (n + 719468) % 146097) (by omega) (by omega)
  obtain ⟨hm₀, hm₁⟩ := monthOfDay_bounds (Int.sub_nonneg_of_le hw₀) (by omega)
  simp only [ofDayNumber]
  split <;> omega

theorem day_bounds (n : Int) : 1 ≤ (ofDayNumber n).day ∧ (ofDayNumber n).day ≤ 31 := by
  simp only [ofDayNumber, daysBeforeMonth, monthOfDay]
  omega

/-- The day of a date whose year has four digits is within reach of the calendar. -/
theorem dayNumber_bounds {n : Int} (h₀ : 0 ≤ (ofDayNumber n).year)
    (h₁ : (ofDayNumber n).year ≤ 9999) : -1000000 ≤ n ∧ n ≤ 3000000 := by
  simp only [ofDayNumber] at h₀ h₁
  obtain ⟨hy₀, hy₁⟩ := yearOfDay_bounds (d := (n + 719468) % 146097) (by omega) (by omega)
  split at h₀ <;> split at h₁ <;> omega

end Date

/-! ### Parts of a text -/

namespace Timestamp

open Text

section Parts

variable {width n : Nat} {cs : List Char} {c : Char}

theorem takeExactly_zeroPadded (hwidth : 0 < width) (hn : n < 10 ^ width) :
    takeExactly width ((zeroPadded width n).toList ++ cs) = some (n, cs) := by
  have hlength := length_zeroPadded hwidth hn
  have htake : ((zeroPadded width n).toList ++ cs).take width = (zeroPadded width n).toList :=
    List.take_left' hlength
  have hdigits : (zeroPadded width n).toList.all fun c => (digitValue? c).isSome :=
    List.all_eq_true.mpr fun c hc => digitValue?_isSome_of_mem_zeroPadded hc
  have hvalue := ofDigitChars_zeroPadded width n
  simp only [Nat.ofDigitChars, Nat.mul_comm 10] at hvalue
  simp only [takeExactly, htake, hlength, hdigits, hvalue, List.drop_left' hlength, and_self,
    if_true]

/-- A fraction ends before the first character that is no digit. -/
theorem takeFraction_zeroPadded (hwidth : 0 < width) (hwidth₉ : width ≤ 9) (hn : n < 10 ^ width)
    (hc : digitValue? c = none) :
    takeFraction ('.' :: ((zeroPadded width n).toList ++ c :: cs)) =
      some (n * 10 ^ (9 - width), c :: cs) := by
  have hlength := length_zeroPadded hwidth hn
  have hdigits : ∀ d ∈ (zeroPadded width n).toList, (digitValue? d).isSome := fun d hd =>
    digitValue?_isSome_of_mem_zeroPadded hd
  have htake : (((zeroPadded width n).toList ++ c :: cs).take 9).takeWhile
      (fun d => (digitValue? d).isSome) = (zeroPadded width n).toList := by
    rw [List.take_append, List.take_of_length_le (by omega), List.takeWhile_append_of_pos hdigits]
    cases 9 - (zeroPadded width n).toList.length <;> simp [hc]
  have hvalue := ofDigitChars_zeroPadded width n
  simp only [Nat.ofDigitChars, Nat.mul_comm 10] at hvalue
  have hne : (zeroPadded width n).toList.isEmpty = false := by
    rw [List.isEmpty_eq_false_iff, ← List.length_pos_iff, hlength]
    exact hwidth
  have hrest : ((zeroPadded width n).toList ++ c :: cs).length - (c :: cs).length = width := by
    rw [List.length_append, hlength, Nat.add_sub_cancel]
  simp only [takeFraction, takeNumber, htake, hne, Bool.false_eq_true, if_false, hvalue,
    List.drop_left, Option.map_some, hrest, List.dropWhile_cons, hc, Option.isSome_none]
  rfl

/-- The nanoseconds are read back, in as few digits as they were written. -/
theorem takeFraction_fractionText (t : Timestamp) (cs : List Char) (hc : digitValue? c = none)
    (hdot : c ≠ '.') :
    takeFraction (t.fractionText.toList ++ c :: cs) = some (t.nanos % 1000000000, c :: cs) := by
  have hlt : t.nanos % 1000000000 < 1000000000 := Nat.mod_lt _ (by decide)
  have hfraction : ∀ {width n : Nat}, 0 < width → width ≤ 9 → n < 10 ^ width →
      takeFraction (("." ++ zeroPadded width n).toList ++ c :: cs) =
        some (n * 10 ^ (9 - width), c :: cs) := by
    intro width n hwidth hwidth₉ hn
    have htext : ("." ++ zeroPadded width n).toList = '.' :: (zeroPadded width n).toList := by simp
    rw [htext]
    exact takeFraction_zeroPadded hwidth hwidth₉ hn hc
  -- The fraction is written with three, six or nine digits, or not at all.
  simp only [fractionText]
  split
  · rename_i hzero
    rw [hzero]
    simp [takeFraction, hdot]
  split
  · rw [hfraction (by decide) (by decide) (by omega)]
    simp only [Nat.reduceSub, Nat.reducePow]
    rw [Nat.div_mul_cancel (Nat.dvd_of_mod_eq_zero ‹_›)]
  split
  · rw [hfraction (by decide) (by decide) (by omega)]
    simp only [Nat.reduceSub, Nat.reducePow]
    rw [Nat.div_mul_cancel (Nat.dvd_of_mod_eq_zero ‹_›)]
  · rw [hfraction (by decide) (by decide) hlt]
    simp

end Parts

/-! ### Whole texts -/

/-- A time that can be written in the form of status records and read back: its year has four
    digits, and it lies in no leap second. -/
structure Writable (t : Timestamp) : Prop where
  year_nonneg : 0 ≤ t.date.year
  year_le : t.date.year ≤ 9999
  nanos_lt : t.nanos < 1000000000

instance : DecidablePred Writable := fun t =>
  decidable_of_iff (0 ≤ t.date.year ∧ t.date.year ≤ 9999 ∧ t.nanos < 1000000000)
    ⟨fun ⟨h₀, h₁, h₂⟩ => ⟨h₀, h₁, h₂⟩, fun h => ⟨h.year_nonneg, h.year_le, h.nanos_lt⟩⟩

/-- The fields that are written of a time name that time. -/
theorem ofFields?_written {t : Timestamp} (h : t.Writable) :
    ofFields? ⟨⟨t.date.year.toNat, t.date.month.toNat, t.date.day.toNat⟩,
      (t.secs % 86400).toNat / 3600, (t.secs % 86400).toNat / 60 % 60,
      (t.secs % 86400).toNat % 60, t.nanos % 1000000000, 0⟩ = some t := by
  obtain ⟨hmonth₁, hmonth₁₂⟩ : 1 ≤ t.date.month ∧ t.date.month ≤ 12 := Date.month_bounds _
  obtain ⟨hday₁, hday₃₁⟩ : 1 ≤ t.date.day ∧ t.date.day ≤ 31 := Date.day_bounds _
  obtain ⟨hfirst, hlast⟩ := Date.dayNumber_bounds h.year_nonneg h.year_le
  have hdate : (⟨t.date.year.toNat, t.date.month.toNat, t.date.day.toNat⟩ : Date) = t.date := by
    rw [Int.toNat_of_nonneg h.year_nonneg, Int.toNat_of_nonneg (by omega),
      Int.toNat_of_nonneg (by omega)]
  have hday : t.date.dayNumber = t.secs / 86400 := Date.dayNumber_ofDayNumber _
  have hvalid : t.date.IsValid := Date.isValid_ofDayNumber _
  have hreach : dayRange = (-96465292, 95026236) := by decide
  have hnanos : t.nanos % 1000000000 = t.nanos := Nat.mod_eq_of_lt h.nanos_lt
  have hno60 : (t.secs % 86400).toNat % 60 ≠ 60 := by omega
  have hsecs : t.secs / 86400 * 86400 + ((t.secs % 86400).toNat / 3600 * 3600 +
      (t.secs % 86400).toNat / 60 % 60 * 60 + min ((t.secs % 86400).toNat % 60) 59 : Nat) - 0 =
      t.secs := by omega
  simp only [ofFields?, hdate, hday, hvalid, hreach, hnanos, hno60, if_false, Nat.add_zero, hsecs,
    true_and]
  rw [dif_pos t.nanos_lt, if_pos (by omega)]

/-- What is written of a time is read as that time. -/
theorem readStrict_offsetText {t : Timestamp} (h : t.Writable) :
    readStrict t.offsetText = some t := by
  obtain ⟨hmonth₁, hmonth₁₂⟩ : 1 ≤ t.date.month ∧ t.date.month ≤ 12 := Date.month_bounds _
  obtain ⟨hday₁, hday₃₁⟩ : 1 ≤ t.date.day ∧ t.date.day ≤ 31 := Date.day_bounds _
  have hyear := h.year_le
  have hleap : ¬ t.nanos ≥ 1000000000 := Nat.not_le_of_lt h.nanos_lt
  have htext : t.offsetText.toList = (zeroPadded 4 t.date.year.toNat).toList ++
      '-' :: ((zeroPadded 2 t.date.month.toNat).toList ++
      '-' :: ((zeroPadded 2 t.date.day.toNat).toList ++
      'T' :: ((zeroPadded 2 ((t.secs % 86400).toNat / 3600)).toList ++
      ':' :: ((zeroPadded 2 ((t.secs % 86400).toNat / 60 % 60)).toList ++
      ':' :: ((zeroPadded 2 ((t.secs % 86400).toNat % 60)).toList ++
      (t.fractionText.toList ++ '+' :: ['0', '0', ':', '0', '0'])))))) := by
    simp [offsetText, rfc3339, dateText, clockText, yearText, h.year_nonneg, h.year_le, hleap]
  have hfraction := takeFraction_fractionText t (c := '+') ['0', '0', ':', '0', '0'] (by decide)
    (by decide)
  have hzone : takeOffset (takeChar ':') ('+' :: ['0', '0', ':', '0', '0']) = some (0, []) := by
    decide
  unfold readStrict
  rw [htext]
  simp (disch := omega) only [takeExactly_zeroPadded, bind, Option.bind, takeChar, takeSeparator,
    if_true, true_or, or_true, hfraction, hzone, List.isEmpty_nil, ofFields?_written h]

/-! ### Order -/

variable {a b c : Timestamp}

theorem le_iff : a ≤ b ↔ a.secs < b.secs ∨ a.secs = b.secs ∧ a.nanos ≤ b.nanos := by
  show a.notAfter b = true ↔ _
  simp [notAfter]

theorem le_refl (a : Timestamp) : a ≤ a := le_iff.mpr (.inr ⟨rfl, Nat.le_refl _⟩)

theorem le_trans (h : a ≤ b) (h' : b ≤ c) : a ≤ c := by
  rw [le_iff] at *
  omega

theorem le_total (a b : Timestamp) : a ≤ b ∨ b ≤ a := by
  rw [le_iff, le_iff]
  omega

theorem le_antisymm (h : a ≤ b) (h' : b ≤ a) : a = b := by
  rw [le_iff] at *
  have hsecs : a.secs = b.secs := by omega
  have hnanos : a.nanos = b.nanos := by omega
  cases a
  cases b
  subst hsecs hnanos
  rfl

end Timestamp

end ExecutionControl
