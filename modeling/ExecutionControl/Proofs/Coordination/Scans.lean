import ExecutionControl.Proofs.KeyOrder

/-! # What a scan finds

    A store keeps its keys in the order of their bytes. Texts compare by their characters, and
    that is the same order: UTF-8 gives a later character a first byte that is greater, or the
    same first bytes and then a greater one (`utf8EncodeChar_append_lt`). It also keeps apart
    what starts with a text and what does not (`bytes_prefix_iff`).

    So a scan, which begins at a text and ends at the first key that does not start with it,
    gives all live keys that start with the bytes of the text, each once and in the order of
    bytes (`scan_complete`), whatever else the store holds.
-/

namespace ExecutionControl

/-! ### Bytes -/

namespace Text

/-- The bytes of a text in UTF-8. -/
def bytes (s : String) : List UInt8 := s.toUTF8.data.toList

theorem bytes_eq (s : String) : bytes s = s.toList.flatMap String.utf8EncodeChar := by
  unfold bytes
  rw [String.toUTF8_eq_toByteArray, ← String.utf8Encode_toList, List.utf8Encode]
  exact List.toList_data_toByteArray

theorem ofNat_eq_ofNat {m n : Nat} (hm : m < 256) (hn : n < 256) :
    UInt8.ofNat m = UInt8.ofNat n ↔ m = n := by
  rw [← UInt8.toNat_inj, UInt8.toNat_ofNat_of_lt' hm, UInt8.toNat_ofNat_of_lt' hn]

theorem ofNat_lt_ofNat {m n : Nat} (hm : m < 256) (hn : n < 256) :
    UInt8.ofNat m < UInt8.ofNat n ↔ m < n := by
  rw [UInt8.lt_iff_toNat_lt, UInt8.toNat_ofNat_of_lt' hm, UInt8.toNat_ofNat_of_lt' hn]

/-- Of two characters, the bytes of the later one are greater, whatever follows them. -/
theorem utf8EncodeChar_append_lt {c d : Char} (h : c < d) (xs ys : List UInt8) :
    String.utf8EncodeChar c ++ xs < String.utf8EncodeChar d ++ ys := by
  have hlt : c.val.toNat < d.val.toNat := h
  have hmax : d.val.toNat < 0x110000 := by
    rcases d.valid with hd | ⟨-, hd⟩ <;> omega
  -- A character of four bytes is split in the middle: its first two bytes decide, or its last two.
  have hhigh : c.val.toNat / 4096 < d.val.toNat / 4096 ∨ c.val.toNat / 4096 = d.val.toNat / 4096 :=
    Nat.lt_or_eq_of_le (Nat.div_le_div_right (Nat.le_of_lt hlt))
  fun_cases String.utf8EncodeChar c <;> fun_cases String.utf8EncodeChar d
  all_goals
    simp (disch := omega) only [List.cons_append, List.nil_append, List.cons_lt_cons_iff,
      ofNat_lt_ofNat, ofNat_eq_ofNat]
    rcases hhigh with hhigh | hhigh <;> omega

theorem flatMap_utf8EncodeChar_lt {l m : List Char} (h : l < m) :
    l.flatMap String.utf8EncodeChar < m.flatMap String.utf8EncodeChar := by
  induction l generalizing m with
  | nil =>
    cases m with
    | nil => exact absurd h (List.not_lt_nil _)
    | cons d m =>
      have hd : 0 < (String.utf8EncodeChar d).length := by
        rw [String.length_utf8EncodeChar]
        exact d.utf8Size_pos
      obtain ⟨first, rest, hfirst⟩ := List.exists_cons_of_length_pos hd
      rw [List.flatMap_cons, hfirst]
      exact List.nil_lt_cons _ _
  | cons c l ih =>
    cases m with
    | nil => exact absurd h (List.not_lt_nil _)
    | cons d m =>
      rw [List.flatMap_cons, List.flatMap_cons]
      rcases List.cons_lt_cons_iff.mp h with hc | ⟨rfl, htail⟩
      · exact utf8EncodeChar_append_lt hc _ _
      · exact List.append_left_lt (ih htail)

/-- Texts are in the order of their bytes. -/
theorem bytes_lt_bytes {s t : String} (h : s < t) : bytes s < bytes t := by
  rw [bytes_eq, bytes_eq]
  exact flatMap_utf8EncodeChar_lt (String.lt_iff.mp h)

/-- A text starts with another exactly if its bytes start with those of the other: no character
    ends in the middle of the bytes of another one. -/
theorem bytes_prefix_iff {s t : String} : bytes s <+: bytes t ↔ s.toList <+: t.toList := by
  constructor
  · rintro ⟨rest, h⟩
    refine List.isPrefix_of_utf8Encode_append_eq_utf8Encode rest.toByteArray ?_
    rw [List.utf8Encode, List.utf8Encode, ← bytes_eq, ← bytes_eq, ← List.toByteArray_append, h]
  · rintro ⟨rest, h⟩
    rw [bytes_eq, bytes_eq, ← h, List.flatMap_append]
    exact List.prefix_append _ _

end Text

/-! ### Scans -/

namespace CoordStore

variable {s : CoordStore} {now : Moment} {start : String}

theorem ascending_liveKeys : (s.liveKeys now start).Pairwise (· < ·) := by
  have hkeys : (s.entries.filter fun _ e => e.isLive now).keys.Pairwise (· < ·) := by
    refine Std.ExtTreeMap.ordered_keys.imp ?_
    intro key later h
    exact compareOfLessAndEq_eq_lt.mp h
  exact hkeys.filter _

theorem startsWith_iff_bytes {key : String} :
    startsWith start key = true ↔ Text.bytes start <+: Text.bytes key := by
  rw [startsWith, List.isPrefixOf_iff_prefix, Text.bytes_prefix_iff]

/-- A scan changes nothing, and gives the live keys that start with a text and no others, each
    once and in the order of their bytes. It fails only if the store cannot be reached. -/
theorem scan_complete (s : CoordStore) (now : Moment) (start : String) :
    ∃ keys : List String,
      s.scan now start = s.whenAvailable (fun s => (.ok keys, s)) ∧
      (∀ key, key ∈ keys ↔
        (s.live? now key).isSome ∧ Text.bytes start <+: Text.bytes key) ∧
      keys.Nodup ∧
      keys.Pairwise fun key later => Text.bytes key < Text.bytes later := by
  refine ⟨s.liveKeys now start, s.scan_eq now start, fun key => ?_, nodup_liveKeys, ?_⟩
  · rw [mem_liveKeys, startsWith_iff_bytes]
  · exact ascending_liveKeys.imp Text.bytes_lt_bytes

end CoordStore

end ExecutionControl
