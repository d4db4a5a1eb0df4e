import ExecutionControl.Proofs.Floats.Seconds
import ExecutionControl.Routing.RetryPolicy

/-! # The wait before a retry

    The wait doubles with every attempt up to a maximum. It is computed on spans that are kept
    as seconds and nanoseconds in machine words, where a product may not fit: then the
    maximum is taken instead. That is right because a product that does not fit exceeds
    every span, and so the wait is the exact minimum (`RetryPolicy.nanos_delayFor`).

    `Duration.timesInWords` and `RetryPolicy.delayInWords` are the computation as machine words
    make it, with every operation checked that would end the program if its result did
    not fit. None of them ever does (`RetryPolicy.delayInWords_eq`).

    A random part of the wait is a product in floating point, which may be rounded up; it is cut
    off at the wait. Only next to the longest span of all can it leave the range of spans
    (`RetryPolicy.jitteredDelay_cases`).
-/

namespace ExecutionControl

/-! ### Arithmetic in words -/

/-- A number that has to fit in a word of so many bits; otherwise the program ends. -/
def inWord (bits n : Nat) : Checked Nat := if n < 2 ^ bits then .ok n else .error .count

theorem inWord_eq {bits n : Nat} (h : n < 2 ^ bits) : inWord bits n = .ok n := if_pos h

namespace Duration

/-- The span of some seconds and nanoseconds, if it is not too long. -/
def ofParts? (secs nanos : Nat) : Option Duration := ofNanos? (secs * 1000000000 + nanos)

/-- The span taken `k` times, where seconds and nanoseconds are words and multiplied apart. The
    nanoseconds carry into the seconds. A sum of seconds that does not fit gives nothing; the
    nanoseconds are multiplied in 64 bits and have to fit. -/
def timesInWords (d : Duration) (k : Nat) : Checked (Option Duration) := do
  let product ← inWord 64 (d.subsecNanos * k)
  let carry := product / 1000000000
  let nanos ← inWord 32 (product % 1000000000)
  if d.secs * k < 2 ^ 64 ∧ d.secs * k + carry < 2 ^ 64 then
    pure (ofParts? (d.secs * k + carry) nanos)
  else pure none

variable (d : Duration) {k : Nat}

theorem nanos_eq : d.nanos = d.secs * 1000000000 + d.subsecNanos := by
  simp only [secs, subsecNanos]
  omega

theorem subsecNanos_lt : d.subsecNanos < 1000000000 := Nat.mod_lt _ (by decide)

/-- Seconds and nanoseconds of a product, with the carry between them. -/
theorem nanos_mul_eq :
    d.nanos * k =
      (d.secs * k + d.subsecNanos * k / 1000000000) * 1000000000 +
        d.subsecNanos * k % 1000000000 := by
  have hsplit := Nat.div_add_mod (d.subsecNanos * k) 1000000000
  rw [nanos_eq, Nat.add_mul, Nat.mul_right_comm]
  omega

/-- In words a span is multiplied as it is without them, and the words always suffice. -/
theorem timesInWords_eq (hk : k < 2 ^ 32) : d.timesInWords k = .ok (d.times? k) := by
  have hnanos : d.subsecNanos * k % 1000000000 < 1000000000 := Nat.mod_lt _ (by decide)
  have hproduct : d.subsecNanos * k < 2 ^ 64 := by
    calc d.subsecNanos * k
        ≤ 1000000000 * k := Nat.mul_le_mul_right k (Nat.le_of_lt d.subsecNanos_lt)
      _ < 2 ^ 64 := by omega
  have hword : d.subsecNanos * k % 1000000000 < 2 ^ 32 := by omega
  unfold timesInWords times?
  rw [inWord_eq hproduct]
  show (inWord 32 (d.subsecNanos * k % 1000000000) >>= _) = _
  rw [inWord_eq hword, nanos_mul_eq]
  generalize d.secs * k = secs
  generalize d.subsecNanos * k / 1000000000 = carry
  generalize d.subsecNanos * k % 1000000000 = nanos at hnanos
  show (if _ then Except.ok (ofParts? (secs + carry) nanos) else Except.ok none) = _
  split
  · rfl
  · -- The seconds do not fit, and so neither does the span.
    rename_i hlong
    have hnone : ofNanos? ((secs + carry) * 1000000000 + nanos) = none := by
      refine dif_neg ?_
      intro hfits
      simp only [Nat.pow_eq] at hfits
      omega
    rw [hnone]

/-- Spans in words are compared by their seconds first, and then by their nanoseconds. -/
theorem le_iff_words (a b : Duration) :
    a ≤ b ↔ a.secs < b.secs ∨ (a.secs = b.secs ∧ a.subsecNanos ≤ b.subsecNanos) := by
  have ha := a.subsecNanos_lt
  have hb := b.subsecNanos_lt
  rw [le_def, a.nanos_eq, b.nanos_eq]
  omega

end Duration

namespace RetryPolicy

variable (p : RetryPolicy) {attempt later : Nat}

/-- The longest wait after an attempt failed, computed in words. -/
def delayInWords (p : RetryPolicy) (attempt : UInt32) : Checked Duration := do
  let factor ← inWord 32 (2 ^ min (attempt.toNat - 1) 31)
  let product ← p.backoffBase.timesInWords factor
  let delay := product.getD p.backoffMax
  if delay.secs < p.backoffMax.secs ∨
      (delay.secs = p.backoffMax.secs ∧ delay.subsecNanos ≤ p.backoffMax.subsecNanos) then
    pure delay
  else pure p.backoffMax

/-! ### The exact wait -/

/-- The wait is the exact product, cut off at the maximum, also where the product is no span. -/
theorem nanos_delayFor :
    (p.delayFor attempt).nanos =
      min (p.backoffBase.nanos * 2 ^ doublings attempt) p.backoffMax.nanos := by
  rw [delayFor, Duration.nanos_shorter, Duration.times?, Duration.ofNanos?, Nat.pow_eq]
  split
  · rfl
  · -- A product that is too long for a span is longer than the maximum.
    rename_i hlong
    have hmax := p.backoffMax.nanos_lt
    simp only [Option.getD_none]
    omega

theorem doublings_lt (attempt : Nat) : doublings attempt < 32 := by
  unfold doublings
  omega

theorem doublings_eq (h : attempt ≤ 32) : doublings attempt = attempt - 1 := by
  unfold doublings
  omega

theorem doublings_mono (h : attempt ≤ later) : doublings attempt ≤ doublings later := by
  unfold doublings
  omega

/-- The computation in words never ends early, and gives the wait. -/
theorem delayInWords_eq (attempt : UInt32) :
    p.delayInWords attempt = .ok (p.delayFor attempt.toNat) := by
  have hfactor : 2 ^ doublings attempt.toNat < 2 ^ 32 :=
    Nat.pow_lt_pow_right (by decide) (doublings_lt _)
  show (inWord 32 (2 ^ doublings attempt.toNat) >>= _) = _
  rw [inWord_eq hfactor]
  show (p.backoffBase.timesInWords (2 ^ doublings attempt.toNat) >>= _) = _
  rw [Duration.timesInWords_eq _ hfactor]
  simp only [bind, Except.bind, ← Duration.le_iff_words, delayFor, Duration.shorter, Nat.pow_eq]
  split <;> rfl

theorem delayFor_mono (h : attempt ≤ later) : p.delayFor attempt ≤ p.delayFor later := by
  have hproduct : p.backoffBase.nanos * 2 ^ doublings attempt ≤
      p.backoffBase.nanos * 2 ^ doublings later :=
    Nat.mul_le_mul_left _ (Nat.pow_le_pow_right (by decide) (doublings_mono h))
  rw [Duration.le_def, nanos_delayFor, nanos_delayFor]
  omega

theorem delayFor_le (p : RetryPolicy) (attempt : Nat) : p.delayFor attempt ≤ p.backoffMax := by
  rw [delayFor, Duration.le_def, Duration.nanos_shorter]
  exact Nat.min_le_right _ _

/-! ### A random part of it -/

/-- A wait that chance gives never exceeds the wait that it is a part of. There is none only if
    that is rounded to 2^64 seconds. -/
theorem jitteredDelay_cases (p : RetryPolicy) (attempt : Nat) (draw : Draw) :
    (∃ delay, p.jitteredDelay attempt draw = .ok delay ∧ delay ≤ p.delayFor attempt) ∨
    (p.jitter = true ∧ 2 ^ 64 - 2 ^ 10 ≤ (p.delayFor attempt).secs ∧
      p.jitteredDelay attempt draw = .error .span) := by
  simp only [jitteredDelay]
  by_cases hrandom : p.jitter = true ∧ p.delayFor attempt ≠ .zero
  · rw [if_pos hrandom]
    cases hscaled : (p.delayFor attempt).scaled draw.factor with
    | ok product =>
      left
      refine ⟨product.shorter (p.delayFor attempt), rfl, ?_⟩
      rw [Duration.le_def, Duration.nanos_shorter]
      exact Nat.min_le_right _ _
    | error o =>
      right
      refine ⟨hrandom.1, ?_, ?_⟩
      · by_contra hlt
        obtain ⟨product, hproduct⟩ := Duration.scaled_ok draw.nonneg draw.le_one (not_le.mp hlt)
        cases hproduct.symm.trans hscaled
      · rw [Duration.scaled_error hscaled]
        rfl
  · left
    rw [if_neg hrandom]
    exact ⟨_, rfl, Nat.le_refl _⟩

/-- The arithmetic of the wait is exact. Computed in words it never ends early, and gives the
    wait of the policy. This never exceeds the maximum, is the exact product of the base with
    the power of two of the attempt, cut off at the maximum, for the first 32 attempts, and
    never falls from one attempt to a later one. A part of it that chance gives never exceeds
    it; there always is one, unless the wait is within 1024 seconds of 2^64. -/
theorem backoff_exact (p : RetryPolicy) :
    (∀ attempt : UInt32, p.delayInWords attempt = .ok (p.delayFor attempt.toNat)) ∧
    (∀ attempt, p.delayFor attempt ≤ p.backoffMax) ∧
    (∀ attempt, 1 ≤ attempt → attempt ≤ 32 →
      (p.delayFor attempt).nanos =
        min (p.backoffBase.nanos * 2 ^ (attempt - 1)) p.backoffMax.nanos) ∧
    (∀ attempt later, attempt ≤ later → p.delayFor attempt ≤ p.delayFor later) ∧
    ∀ attempt draw,
      (∃ delay, p.jitteredDelay attempt draw = .ok delay ∧ delay ≤ p.delayFor attempt) ∨
      (p.jitter = true ∧ 2 ^ 64 - 2 ^ 10 ≤ (p.delayFor attempt).secs ∧
        p.jitteredDelay attempt draw = .error .span) := by
  refine ⟨p.delayInWords_eq, p.delayFor_le, ?_, ?_, p.jitteredDelay_cases⟩
  · intro attempt _ hle
    rw [nanos_delayFor, doublings_eq hle]
  · intro attempt later hle
    exact p.delayFor_mono hle

/-- A base of half a second short of 2^63 seconds, which the first doubling brings to the longest
    whole span and the second beyond every span. -/
def outgrowing : RetryPolicy :=
  ⟨40, ⟨Nat.pow 2 63 * 1000000000 - 500000000, by decide⟩, .longest, true⟩

theorem backoff_exact_outgrowing :
    outgrowing.delayInWords 32 = .ok .longest ∧
    (outgrowing.delayFor 2).nanos = (2 ^ 64 - 1) * 1000000000 ∧
    (outgrowing.delayFor 3).nanos = Duration.longest.nanos ∧
    outgrowing.delayFor 3 ≤ outgrowing.delayFor 4000000000 ∧
    (∃ delay, outgrowing.jitteredDelay 1 .one = .ok delay ∧ delay ≤ outgrowing.delayFor 1) ∧
    outgrowing.jitteredDelay 3 .one = .error .span := by
  obtain ⟨hwords, -, hexact, hmono, hdrawn⟩ := backoff_exact outgrowing
  refine ⟨?_, ?_, ?_, hmono 3 4000000000 (by decide), ?_, by decide +kernel⟩
  · rw [hwords]
    exact congrArg Except.ok (by decide +kernel)
  · rw [hexact 2 (by decide) (by decide)]
    decide +kernel
  · rw [hexact 3 (by decide) (by decide)]
    decide +kernel
  · -- The first wait is far from the longest span.
    refine (hdrawn 1 .one).resolve_right fun hlong => ?_
    exact absurd hlong.2.1 (by decide +kernel)

end RetryPolicy

end ExecutionControl
