/-! # Letter case

    Names are compared up to the case of ASCII letters. Letters outside ASCII are
    never folded.
-/

namespace ExecutionControl.Text

/-- Whether two texts are equal up to the case of ASCII letters. -/
def sameLetters (a b : List Char) : Bool :=
  a.map Char.toLower == b.map Char.toLower

theorem sameLetters_comm (a b : List Char) : sameLetters a b = sameLetters b a := by
  simp only [sameLetters]
  exact Bool.eq_iff_iff.2 ⟨fun h => by simpa using (by simpa using h : _ = _).symm,
    fun h => by simpa using (by simpa using h : _ = _).symm⟩

end ExecutionControl.Text
