import Mathlib.Tactic.SplitIfs
import ExecutionControl.Json.Reader
import ExecutionControl.Json.Writer

/-! # Strings that are written and read

    A reader that finds its value at the front of a text takes it and leaves the rest in place
    (`Reads`). Readers one after another do so if each of them does, on what the one before it
    left (`Reads.bind`). A string is written character by character, and so it is read: each
    character as it was written, with its escape if it has one, up to the closing quote.
-/

namespace ExecutionControl.Json

variable {α β : Type} {r : Reader α} {f : α → Reader β} {a : α} {b : β} {c : Char}
  {cs mid rest : List Char}

/-! ### Readers one after another -/

/-- The reader takes a value from the front of the characters and leaves the rest. -/
def Reads (r : Reader α) (cs : List Char) (a : α) (rest : List Char) : Prop :=
  r cs = .ok (a, rest)

theorem Reads.pure (a : α) (cs : List Char) : Reads (Pure.pure a) cs a cs := rfl

theorem Reads.bind (h : Reads r cs a mid) (hf : Reads (f a) mid b rest) :
    Reads (r >>= f) cs b rest := by
  show (r cs >>= fun p => f p.1 p.2) = .ok (b, rest)
  rw [h]
  exact hf

theorem Reads.map (g : α → β) (h : Reads r cs a rest) : Reads (g <$> r) cs (g a) rest := by
  show (r cs >>= fun p => Except.ok (g p.1, p.2)) = .ok (g a, rest)
  rw [h]
  rfl

/-- No gap is written between two parts. -/
theorem reads_peek (h : isGap c = false) (cs : List Char) :
    Reads peek (c :: cs) (some c) (c :: cs) := by
  have hstay : (c :: cs).dropWhile isGap = c :: cs := List.dropWhile_cons_of_neg (by simp [h])
  show Except.ok (((c :: cs).dropWhile isGap).head?, (c :: cs).dropWhile isGap) = _
  rw [hstay]
  rfl

theorem reads_skipOne (c : Char) (cs : List Char) : Reads skipOne (c :: cs) () cs := rfl

theorem reads_word (word rest : List Char) : Reads (readWord word) (word ++ rest) () rest := by
  induction word with
  | nil => rfl
  | cons c word ih =>
    show (if c = c then readWord word (word ++ rest) else .error .malformed) = _
    rw [if_pos rfl]
    exact ih

/-! ### Escapes -/

theorem hexValue?_hexDigit :
    ∀ n < 16, hexValue? (hexDigit n) = some n ∧ (hexDigit n).utf8Size = 1 := by
  decide

/-- A control is read from the two digits of its code point. -/
theorem reads_codePoint {n m : Nat} (hn : n < 16) (hm : m < 16) (rest : List Char) :
    Reads readCodePoint ('0' :: '0' :: hexDigit n :: hexDigit m :: rest)
      (Char.ofNat (n * 16 + m)) rest := by
  obtain ⟨hn₁, hn₂⟩ := hexValue?_hexDigit n hn
  obtain ⟨hm₁, hm₂⟩ := hexValue?_hexDigit m hm
  have hzero : hexValue? '0' = some 0 := rfl
  have hhex : Reads readHex ('0' :: '0' :: hexDigit n :: hexDigit m :: rest) (n * 16 + m) rest := by
    have hbytes : ¬ byteLength ['0', '0', hexDigit n, hexDigit m] < 4 := by
      simp only [byteLength, List.foldl_cons, List.foldl_nil, hn₂, hm₂]
      decide
    simp only [Reads, readHex, List.take_succ_cons, List.take_zero, if_neg hbytes, hzero, hn₁, hm₁]
    rw [Nat.zero_mul, Nat.zero_add]
  refine hhex.bind ?_
  rw [if_neg (by omega), if_pos (by omega)]
  exact .pure _ _

/-- A character is read as it was written. -/
theorem reads_stringChar (c : Char) (rest : List Char) :
    Reads readStringChar (stringChar c ++ rest) (some c) rest := by
  unfold stringChar
  split_ifs with hquote hslash hb ht hn hf hr hcontrol
  · rw [hquote]; rfl
  · rw [hslash]; rfl
  · rw [hb]; rfl
  · rw [ht]; rfl
  · rw [hn]; rfl
  · rw [hf]; rfl
  · rw [hr]; rfl
  · -- A control without a short escape: its code point is the value of the two digits.
    have hread := reads_codePoint (by omega : c.toNat / 16 < 16) (by omega : c.toNat % 16 < 16) rest
    rw [Nat.div_add_mod' c.toNat 16, Char.ofNat_toNat] at hread
    show (readCodePoint
      ('0' :: '0' :: hexDigit (c.toNat / 16) :: hexDigit (c.toNat % 16) :: rest)).map _ = _
    rw [hread]
    rfl
  · show readStringChar (c :: rest) = _
    simp only [readStringChar, if_neg hcontrol]

/-! ### Whole strings -/

theorem length_le_stringBody (cs : List Char) : cs.length ≤ (stringBody cs).length := by
  induction cs with
  | nil => exact Nat.le_refl 0
  | cons c cs ih =>
    have hone : 1 ≤ (stringChar c).length := by
      unfold stringChar
      split_ifs <;> simp
    simp only [stringBody, List.length_cons, List.length_append]
    omega

theorem reads_stringBody {fuel : Fuel} (h : cs.length < fuel.length) (rest : List Char) :
    Reads (readStringBody fuel) (stringBody cs ++ '"' :: rest) cs rest := by
  induction cs generalizing fuel with
  | nil =>
    obtain ⟨_, fuel, rfl⟩ := List.exists_cons_of_length_pos (Nat.zero_lt_of_lt h)
    rfl
  | cons c cs ih =>
    obtain ⟨_, fuel, rfl⟩ := List.exists_cons_of_length_pos (Nat.zero_lt_of_lt h)
    rw [stringBody, List.append_assoc]
    refine (reads_stringChar c _).bind ?_
    refine (ih (Nat.lt_of_succ_lt_succ h)).bind ?_
    exact .pure _ _

/-- A string is read up to its closing quote, after its opening one. -/
theorem reads_stringRest (s : String) (rest : List Char) :
    Reads readStringRest (stringBody s.toList ++ '"' :: rest) s rest := by
  have hfuel : s.toList.length < (' ' :: (stringBody s.toList ++ '"' :: rest)).length := by
    have hlength := length_le_stringBody s.toList
    simp only [List.length_cons, List.length_append]
    omega
  have hbody : Reads (withFuel readStringBody) (stringBody s.toList ++ '"' :: rest) s.toList rest :=
    reads_stringBody hfuel rest
  have hread := hbody.map String.ofList
  rw [String.ofList_toList] at hread
  exact hread

end ExecutionControl.Json
