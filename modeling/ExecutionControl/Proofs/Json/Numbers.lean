import ExecutionControl.Proofs.Json.Strings
import ExecutionControl.Proofs.Numerals

/-! # Whole numbers that are written and read

    A whole number of 64 bits, with or without a sign, is read from its digits as long as
    nothing follows them that could go on with them. Its digits never start with a zero unless
    it is zero, and none of them is dropped, because the digits so far are never more than the
    number itself.
-/

namespace ExecutionControl.Json

open Text

variable {n kept : Nat} {negative : Bool} {cs rest : List Char}

/-- What may follow a value: nothing, a comma or a closing bracket. -/
inductive Closes : List Char → Prop
  | whole : Closes []
  | comma (cs : List Char) : Closes (',' :: cs)
  | items (cs : List Char) : Closes (']' :: cs)
  | fields (cs : List Char) : Closes ('\x7d' :: cs)

theorem Closes.startsWithDigit (h : Closes rest) : startsWithDigit rest = false := by
  cases h <;> rfl

theorem Closes.leadingDigits (h : Closes rest) : leadingDigits rest = [] := by
  cases h <;> rfl

/-- A whole number ends where its digits do. -/
theorem Closes.readNumberTail (h : Closes rest) (negative : Bool) (n : Nat) :
    Reads (readNumberTail negative n 0) rest (wholeNumber negative n) rest := by
  cases h <;> rfl

/-! ### Digits -/

/-- The text of a natural number starts with a digit. -/
theorem exists_digit (n : Nat) : ∃ c cs, (toString n).toList = c :: cs ∧ c.isDigit := by
  obtain ⟨c, cs, hcs, -⟩ := toString_eq_cons n
  exact ⟨c, cs, hcs, isDigit_of_mem_toString (hcs ▸ List.mem_cons_self)⟩

theorem ne_of_isDigit {c d : Char} (hc : c.isDigit) (hd : d.isDigit = false) : c ≠ d := by
  intro heq
  rw [heq, hd] at hc
  cases hc

/-- A number that is not zero does not start with a zero. -/
theorem exists_toDigits_eq (h : 0 < n) :
    ∃ c cs, Nat.toDigits 10 n = c :: cs ∧ c ≠ '0' := by
  induction n using Nat.strongRecOn with
  | ind n ih =>
    by_cases hlt : n < 10
    · refine ⟨Nat.digitChar n, [], Nat.toDigits_of_lt_base hlt, ?_⟩
      exact (by decide : ∀ d < 10, 0 < d → Nat.digitChar d ≠ '0') n hlt h
    · obtain ⟨c, cs, hcs, hc⟩ := ih (n / 10) (by omega) (by omega)
      refine ⟨c, cs ++ [Nat.digitChar (n % 10)], ?_, hc⟩
      rw [Nat.toDigits_of_base_le (by decide) (by omega), hcs]
      rfl

/-- All digits of a number that fits are kept. -/
theorem keepDigits_append (hdigits : ∀ c ∈ cs, c.isDigit)
    (hfits : Nat.ofDigitChars 10 cs n ≤ maxWord64) (hrest : startsWithDigit rest = false) :
    keepDigits n kept (cs ++ rest) = (Nat.ofDigitChars 10 cs n, kept + cs.length, rest) := by
  induction cs generalizing n kept with
  | nil =>
    cases rest with
    | nil => rfl
    | cons c rest =>
      have hnone : digitValue? c = none :=
        Option.isNone_iff_eq_none.mp (Option.isSome_eq_false_iff.mp hrest)
      simp only [List.nil_append, keepDigits, hnone, Nat.ofDigitChars_nil, List.length_nil,
        Nat.add_zero]
  | cons c cs ih =>
    have hlater : ∀ c ∈ cs, c.isDigit := fun c hc => hdigits c (List.mem_cons_of_mem _ hc)
    rw [Nat.ofDigitChars_cons, Nat.mul_comm 10 n] at hfits ⊢
    -- The digits so far are at most the whole number, so that the next one still fits.
    have hsofar := le_ofDigitChars cs (n * 10 + (c.toNat - '0'.toNat))
    simp only [List.cons_append, keepDigits, digitValue?_of_isDigit (hdigits c List.mem_cons_self),
      if_pos (Nat.le_trans hsofar hfits), ih hlater hfits, List.length_cons]
    rw [Nat.add_assoc, Nat.add_comm 1]

/-! ### Numbers -/

/-- A whole number is read from its digits, and from nothing that follows them. -/
theorem reads_digits (negative : Bool) (h : n ≤ maxWord64) (hrest : Closes rest) :
    Reads (readNumber negative) ((toString n).toList ++ rest) (wholeNumber negative n) rest := by
  have hdigits : ∀ c ∈ (toString n).toList, c.isDigit := fun c hc => isDigit_of_mem_toString hc
  have hvalue := ofDigitChars_toString n
  have hkept : keepDigits 0 0 ((toString n).toList ++ rest) = _ :=
    keepDigits_append hdigits (hvalue.symm ▸ h) hrest.startsWithDigit
  by_cases hzero : n = 0
  · -- A zero is read on a path of its own, on which no other digit may follow.
    subst hzero
    show (if startsWithDigit rest then _ else readNumberTail negative 0 0 rest) = _
    rw [hrest.startsWithDigit]
    exact hrest.readNumberTail negative 0
  · obtain ⟨c, cs, hcs, hc⟩ := exists_toDigits_eq (Nat.pos_of_ne_zero hzero)
    rw [← Nat.toList_repr, ← Nat.toString_eq_repr] at hcs
    have hstarts : startsWithDigit (c :: (cs ++ rest)) = true := by
      have hdigit := hdigits c (hcs ▸ List.mem_cons_self)
      show (digitValue? c).isSome = true
      rw [digitValue?_of_isDigit hdigit]
      rfl
    rw [hvalue, hcs, List.cons_append] at hkept
    rw [hcs, List.cons_append]
    simp only [Reads, readNumber, hstarts, if_true, hkept, hrest.leadingDigits, List.length_nil,
      List.drop_zero]
    exact hrest.readNumberTail negative n

/-- A negative number is written as its sign and then its size. -/
theorem toList_toString_negSucc (n : Nat) :
    (toString (Int.negSucc n)).toList = '-' :: (toString (n + 1)).toList :=
  String.toList_append

end ExecutionControl.Json
