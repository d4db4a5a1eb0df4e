import ExecutionControl.Proofs.Admission.History
import ExecutionControl.Proofs.Floats.Seconds

/-! # Cutoffs are numbers

    A slot is stale if its score is not above the cutoff. A removal by score also asks for a
    lowest score, and what is not a number lies neither above nor below a cutoff. Here is
    why neither matters: times, spans of time and cutoffs stand for numbers, whatever the
    retention is, and no score lies below the lowest one. So a purge keeps a slot whose
    score is a number exactly if that score is above the cutoff (`outside_iff`).
-/

namespace ExecutionControl

open Binary64

/-! ### Times -/

theorem Timestamp.standsFor_score (t : Timestamp) : ∃ v, StandsFor t.score v := by
  obtain ⟨r, -, hstands⟩ := standsFor_ofInt t.toMillis
  obtain ⟨w, hw, -⟩ := hstands.div_thousand
  exact ⟨w, hw⟩

namespace Admission

variable {a : Admission} {now : Timestamp} {score : Float}

/-! ### Cutoffs -/

/-- A cutoff may be infinite, but it always is a number. -/
theorem standsFor_cutoff (a : Admission) (now : Timestamp) :
    ∃ v, StandsFor (a.cutoff now) v := by
  obtain ⟨v, hv⟩ := now.standsFor_score
  obtain ⟨-, -, w, -, -, -, -, hw, hlt⟩ := a.config.slotRetention.toSeconds_rounds
  obtain ⟨q, hq, -⟩ := hv.sub hw hlt
  exact ⟨q, hq⟩

/-- A purge keeps the scores above the cutoff. -/
theorem outside_iff (h : score.isNaN = false) :
    (score < lowestScore ∨ score > a.cutoff now) ↔ ¬ score ≤ a.cutoff now := by
  obtain ⟨v, hv⟩ := standsFor_of_isNaN h
  obtain ⟨w, hw⟩ := a.standsFor_cutoff now
  rw [or_iff_right (not_lt_lowestScore score), gt_iff_lt, hw.lt_iff hv, hv.le_iff hw, not_le]

end Admission

end ExecutionControl
