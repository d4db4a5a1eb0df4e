import ExecutionControl.Text.Numeral

/-! # Numerals that are written and read

    A number that is written to a store is read back as the same number, if it lies in the
    range that the reader accepts; and no other number is ever read from its text.
-/

namespace ExecutionControl.Text

variable {limit n m value : Nat} {excess : NumeralError} {cs : List Char}

theorem digitValue?_of_isDigit {c : Char} (h : c.isDigit) :
    digitValue? c = some (c.toNat - '0'.toNat) := by
  have hbounds : '0' ≤ c ∧ c ≤ '9' := by
    simp only [Char.isDigit, Bool.and_eq_true, decide_eq_true_eq, ge_iff_le] at h
    exact h
  exact if_pos hbounds

/-- Digits never make a numeral smaller. -/
theorem le_ofDigitChars (cs : List Char) (value : Nat) :
    value ≤ Nat.ofDigitChars 10 cs value := by
  induction cs generalizing value with
  | nil => simp
  | cons c cs ih =>
    rw [Nat.ofDigitChars_cons]
    have := ih (10 * value + (c.toNat - '0'.toNat))
    omega

theorem readDigits_cons {c : Char} (h : c.isDigit) :
    readDigits limit excess value (c :: cs) =
      if 10 * value + (c.toNat - '0'.toNat) ≤ limit then
        readDigits limit excess (10 * value + (c.toNat - '0'.toNat)) cs
      else .error excess := by
  simp only [readDigits, digitValue?_of_isDigit h, Nat.mul_comm value 10]

theorem readDigits_of_le (hdigits : ∀ c ∈ cs, c.isDigit)
    (hle : Nat.ofDigitChars 10 cs value ≤ limit) :
    readDigits limit excess value cs = .ok (Nat.ofDigitChars 10 cs value) := by
  induction cs generalizing value with
  | nil => simp [readDigits]
  | cons c cs ih =>
    rw [Nat.ofDigitChars_cons] at hle ⊢
    rw [readDigits_cons (hdigits c List.mem_cons_self)]
    have hstep := le_ofDigitChars cs (10 * value + (c.toNat - '0'.toNat))
    rw [if_pos (Nat.le_trans hstep hle)]
    exact ih (fun c hc => hdigits c (List.mem_cons_of_mem _ hc)) hle

/-- What is read from digits is their value. -/
theorem eq_of_readDigits (hdigits : ∀ c ∈ cs, c.isDigit)
    (h : readDigits limit excess value cs = .ok m) : m = Nat.ofDigitChars 10 cs value := by
  induction cs generalizing value with
  | nil => simpa [readDigits, eq_comm] using h
  | cons c cs ih =>
    rw [Nat.ofDigitChars_cons]
    rw [readDigits_cons (hdigits c List.mem_cons_self)] at h
    split at h
    · exact ih (fun c hc => hdigits c (List.mem_cons_of_mem _ hc)) h
    · cases h

/-! ### Numbers as texts -/

theorem isDigit_of_mem_toString {c : Char} (h : c ∈ (toString n).toList) : c.isDigit := by
  rw [Nat.toString_eq_repr, Nat.toList_repr] at h
  exact Nat.isDigit_of_mem_toDigits (by decide) (by decide) h

theorem ofDigitChars_toString (n : Nat) : Nat.ofDigitChars 10 (toString n).toList 0 = n := by
  rw [Nat.toString_eq_repr, Nat.toList_repr, Nat.ofDigitChars_ten_toDigits]

/-- The text of a natural number starts with a digit, and so with no sign. -/
theorem toString_eq_cons (n : Nat) :
    ∃ c cs, (toString n).toList = c :: cs ∧ c ≠ '+' ∧ c ≠ '-' := by
  have hne : (toString n).toList ≠ [] := by
    rw [Nat.toString_eq_repr, Nat.toList_repr]
    exact Nat.toDigits_ne_nil
  obtain ⟨c, cs, hcs⟩ := List.exists_cons_of_ne_nil hne
  have hdigit : c.isDigit := isDigit_of_mem_toString (hcs ▸ List.mem_cons_self)
  refine ⟨c, cs, hcs, ?_, ?_⟩ <;> (rintro rfl; revert hdigit; decide)

/-- Without a sign, a natural number is read from its digits. -/
theorem readNat_toString_eq (n : Nat) :
    readNat limit (toString n) = readDigits limit .tooLarge 0 (toString n).toList := by
  obtain ⟨c, cs, hcs, hplus, -⟩ := toString_eq_cons n
  unfold readNat
  rw [hcs]
  simp only [readMagnitude]
  split <;> simp_all

theorem readInt_toString_eq (n : Nat) :
    readInt limit (toString n)
      = (readDigits limit .tooLarge 0 (toString n).toList).map fun n => (n : Int) := by
  obtain ⟨c, cs, hcs, hplus, hminus⟩ := toString_eq_cons n
  unfold readInt
  rw [hcs]
  simp only [readMagnitude]
  split <;> simp_all

theorem eq_of_readNat_toString (h : readNat limit (toString n) = .ok m) : m = n := by
  rw [readNat_toString_eq] at h
  exact (eq_of_readDigits (fun c hc => isDigit_of_mem_toString hc) h).trans
    (ofDigitChars_toString n)

theorem readInt_toString (h : n ≤ limit) : readInt limit (toString (n : Int)) = .ok n := by
  have hvalue := ofDigitChars_toString n
  have htext : toString (n : Int) = toString n := rfl
  rw [htext, readInt_toString_eq, readDigits_of_le (fun c hc => isDigit_of_mem_toString hc)
    (hvalue.symm ▸ h), hvalue]
  rfl

end ExecutionControl.Text
