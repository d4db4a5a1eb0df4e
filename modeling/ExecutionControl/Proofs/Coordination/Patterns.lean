import ExecutionControl.Coordination.Glob
import Mathlib.Data.List.Basic

/-! # What a key pattern matches

    `Fills` says which texts a pattern stands for: each `*` gives way to a run of characters,
    and everything else stays. Matching never goes back on a choice: each piece between two
    `*`s is taken where it first occurs. It misses nothing all the same, since what is left
    after the first occurrence ends in what is left after any other one (`afterFirst_append`),
    and more text to look at never hurts (`Scattered.of_suffix`).

    A matcher on encoded text cuts it at byte positions that it computes, and each cut has to
    lie within the text and between two characters. `cutMatch?` makes every cut a step that can
    fail; none of them ever does (`isMatch_exact`).
-/

namespace ExecutionControl.Glob

variable {pattern text piece first last gap rest : List Char} {ps more : List (List Char)}

/-! ### Texts of a pattern -/

/-- The texts of a pattern: some run of characters, perhaps none, stands in the place of each
    `*`, and every other character of the pattern for itself. -/
inductive Fills : List Char → List Char → Prop where
  | nil : Fills [] []
  | star {pattern text : List Char} (run : List Char) :
    Fills pattern text → Fills ('*' :: pattern) (run ++ text)
  | char {c : Char} {pattern text : List Char} :
    c ≠ '*' → Fills pattern text → Fills (c :: pattern) (c :: text)

/-- The pieces in order with a run of characters between any two; the text starts with the
    first of them and ends with the last. -/
def Spread (first : List Char) : List (List Char) → List Char → Prop
  | [], text => text = first
  | next :: more, text => ∃ run rest, text = first ++ run ++ rest ∧ Spread next more rest

/-- The pieces in order within a text, with a run of characters before and after each. -/
def Scattered : List (List Char) → List Char → Prop
  | [], _ => True
  | piece :: ps, text => ∃ gap rest, text = gap ++ piece ++ rest ∧ Scattered ps rest

/-- One more character before the first piece is one more character before the text. -/
theorem spread_cons {c : Char} :
    Spread (c :: first) more text ↔ ∃ tail, text = c :: tail ∧ Spread first more tail := by
  cases more with
  | nil => exact ⟨fun h => ⟨first, h, rfl⟩, fun ⟨_, htext, htail⟩ => htext.trans (by rw [htail])⟩
  | cons next more =>
    constructor
    · rintro ⟨run, rest, rfl, hrest⟩
      exact ⟨_, rfl, run, rest, rfl, hrest⟩
    · rintro ⟨_, rfl, run, rest, rfl, hrest⟩
      exact ⟨run, rest, rfl, hrest⟩

theorem pieces_ne_nil (pattern : List Char) : pieces pattern ≠ [] := by
  cases pattern with
  | nil => simp [pieces]
  | cons c pattern =>
    unfold pieces
    split
    · simp
    · split <;> simp

/-- The texts of a pattern are its pieces with runs of characters between them. -/
theorem fills_iff_spread (hpieces : pieces pattern = first :: more) :
    Fills pattern text ↔ Spread first more text := by
  induction pattern generalizing first more text with
  | nil =>
    obtain ⟨rfl, rfl⟩ := List.cons.inj hpieces
    constructor
    · rintro ⟨⟩
      rfl
    · rintro rfl
      exact .nil
  | cons c pattern ih =>
    obtain ⟨next, others, hrest⟩ := List.exists_cons_of_ne_nil (pieces_ne_nil pattern)
    -- A star ends the first piece; any other character belongs to it.
    by_cases hc : c = '*'
    · subst hc
      rw [pieces, if_pos rfl, hrest] at hpieces
      obtain ⟨rfl, rfl⟩ := List.cons.inj hpieces
      constructor
      · rintro (_ | ⟨run, htext⟩ | ⟨hstar, -⟩)
        · exact ⟨run, _, rfl, (ih hrest).mp htext⟩
        · exact absurd rfl hstar
      · rintro ⟨run, rest, rfl, htext⟩
        exact .star run ((ih hrest).mpr htext)
    · rw [pieces, if_neg hc, hrest] at hpieces
      obtain ⟨rfl, rfl⟩ := List.cons.inj hpieces
      rw [spread_cons]
      constructor
      · rintro (_ | _ | ⟨-, htext⟩)
        · exact absurd rfl hc
        · exact ⟨_, rfl, (ih hrest).mp htext⟩
      · rintro ⟨tail, rfl, htext⟩
        exact .char hc ((ih hrest).mpr htext)

/-- Between the first piece and the last the others are scattered. -/
theorem spread_iff_scattered {next : List Char} :
    Spread first (next :: more) text ↔ ∃ inner,
      text = first ++ inner ++ (next :: more).getLastD [] ∧
        Scattered (next :: more).dropLast inner := by
  induction more generalizing first next text with
  | nil =>
    constructor
    · rintro ⟨run, rest, rfl, rfl⟩
      exact ⟨run, rfl, trivial⟩
    · rintro ⟨inner, rfl, -⟩
      exact ⟨inner, next, rfl, rfl⟩
  | cons other more ih =>
    constructor
    · rintro ⟨run, rest, rfl, hrest⟩
      obtain ⟨inner, rfl, hinner⟩ := ih.mp hrest
      exact ⟨run ++ next ++ inner, by simp, run, inner, rfl, hinner⟩
    · rintro ⟨_, rfl, run, inner, rfl, hinner⟩
      exact ⟨run, next ++ inner ++ (other :: more).getLastD [], by simp,
        ih.mpr ⟨inner, rfl, hinner⟩⟩

/-! ### The first occurrence -/

/-- What is left after the first occurrence is left after an occurrence. -/
theorem afterFirst_eq_some (h : afterFirst piece text = some rest) :
    ∃ gap, text = gap ++ piece ++ rest := by
  induction text with
  | nil =>
    unfold afterFirst at h
    split at h <;> cases h
    rename_i hempty
    exact ⟨[], by simpa using hempty⟩
  | cons c text ih =>
    unfold afterFirst at h
    split at h
    · rename_i hstarts
      cases h
      obtain ⟨tail, htail⟩ := List.isPrefixOf_iff_prefix.mp hstarts
      exact ⟨[], by simp [← htail]⟩
    · obtain ⟨gap, rfl⟩ := ih h
      exact ⟨c :: gap, rfl⟩

/-- Wherever a piece occurs, it has a first occurrence, and what is left after that one ends in
    what is left after this one. -/
theorem afterFirst_append (gap piece rest : List Char) :
    ∃ rest', afterFirst piece (gap ++ piece ++ rest) = some rest' ∧ rest <:+ rest' := by
  induction gap with
  | nil =>
    refine ⟨rest, ?_, List.suffix_refl rest⟩
    cases htext : piece ++ rest with
    | nil =>
      obtain ⟨rfl, rfl⟩ := List.append_eq_nil_iff.mp htext
      rfl
    | cons c tail =>
      have hstarts : piece.isPrefixOf (c :: tail) = true := by
        rw [← htext]
        exact List.isPrefixOf_iff_prefix.mpr (List.prefix_append piece rest)
      rw [List.nil_append, htext, afterFirst, if_pos hstarts, ← htext, List.drop_left]
  | cons c gap ih =>
    rw [List.cons_append, List.cons_append, afterFirst]
    split
    · -- The piece occurs earlier, and the two rests end together.
      refine ⟨_, rfl, List.suffix_of_suffix_length_le ?_ (List.drop_suffix _ _) ?_⟩
      · exact ⟨c :: (gap ++ piece), rfl⟩
      · simp only [List.length_drop, List.length_cons, List.length_append]
        omega
    · exact ih

/-- Pieces that are scattered over a text are scattered over what ends in it. -/
theorem Scattered.of_suffix (h : Scattered ps rest) (hsuffix : rest <:+ text) :
    Scattered ps text := by
  cases ps with
  | nil => trivial
  | cons piece ps =>
    obtain ⟨gap, later, rfl, hlater⟩ := h
    obtain ⟨before, rfl⟩ := hsuffix
    exact ⟨before ++ gap, later, by simp, hlater⟩

/-- Taking every piece where it first occurs finds the pieces if they can be found at all. -/
theorem inOrder_iff : inOrder ps text = true ↔ Scattered ps text := by
  induction ps generalizing text with
  | nil => exact ⟨fun _ => trivial, fun _ => rfl⟩
  | cons piece ps ih =>
    unfold inOrder
    constructor
    · intro h
      split at h
      · rename_i rest hrest
        obtain ⟨gap, rfl⟩ := afterFirst_eq_some hrest
        exact ⟨gap, rest, rfl, ih.mp h⟩
      · cases h
    · rintro ⟨gap, rest, rfl, hrest⟩
      obtain ⟨rest', hfirst, hsuffix⟩ := afterFirst_append gap piece rest
      rw [hfirst]
      exact ih.mpr (hrest.of_suffix hsuffix)

/-! ### Matching -/

theorem between_iff : between first last text = true ↔ ∃ inner, text = first ++ inner ++ last := by
  simp only [between, Bool.and_eq_true, decide_eq_true_eq, List.isPrefixOf_iff_prefix,
    List.isSuffixOf_iff_suffix]
  constructor
  · rintro ⟨⟨⟨tail, rfl⟩, hroom⟩, hlast⟩
    -- There is room for the last piece after the first one, so that it lies there.
    have hsuffix : last <:+ tail := by
      refine List.suffix_of_suffix_length_le hlast (List.suffix_append first tail) ?_
      rw [List.length_append] at hroom
      omega
    obtain ⟨inner, rfl⟩ := hsuffix
    exact ⟨inner, by simp⟩
  · rintro ⟨inner, rfl⟩
    refine ⟨⟨⟨inner ++ last, by simp⟩, ?_⟩, List.suffix_append _ _⟩
    simp only [List.length_append]
    omega

/-- What lies between the first piece and the last. -/
theorem take_drop_append (first inner last : List Char) :
    ((first ++ inner ++ last).drop first.length).take
      ((first ++ inner ++ last).length - first.length - last.length) = inner := by
  simp only [List.append_assoc, List.drop_left, List.length_append]
  rw [show first.length + (inner.length + last.length) - first.length - last.length = inner.length
    by omega, List.take_left]

theorem matchesChars_iff : matchesChars pattern text = true ↔ Fills pattern text := by
  unfold matchesChars
  match hpieces : pieces pattern with
  | [] => exact absurd hpieces (pieces_ne_nil _)
  | [piece] =>
    rw [fills_iff_spread hpieces]
    exact beq_iff_eq.trans eq_comm
  | first :: next :: more =>
    -- Between the first piece and the last there is one inner part, for the matcher as well.
    rw [fills_iff_spread hpieces, spread_iff_scattered]
    simp only [Bool.and_eq_true, between_iff, inOrder_iff]
    constructor
    · rintro ⟨⟨inner, rfl⟩, hinner⟩
      rw [take_drop_append] at hinner
      exact ⟨inner, rfl, hinner⟩
    · rintro ⟨inner, rfl, hinner⟩
      rw [take_drop_append]
      exact ⟨⟨inner, rfl⟩, hinner⟩

/-- A pattern whose only `*` is its end matches what starts with the text before it. -/
theorem fills_append_star (hstar : '*' ∉ first) : Fills (first ++ ['*']) text ↔ first <+: text := by
  induction first generalizing text with
  | nil =>
    simp only [List.nil_append, List.nil_prefix, iff_true]
    have hfills : Fills ['*'] (text ++ []) := .star text .nil
    rwa [List.append_nil] at hfills
  | cons c first ih =>
    rw [List.mem_cons, not_or] at hstar
    constructor
    · intro h
      cases h with
      | star => exact absurd rfl hstar.1
      | char _ htext => exact (List.prefix_cons_inj c).mpr ((ih hstar.2).mp htext)
    · rintro ⟨rest, rfl⟩
      exact .char (Ne.symm hstar.1) ((ih hstar.2).mpr ⟨rest, rfl⟩)

/-! ### Bytes -/

/-- The length of a text in bytes. -/
def bytes (text : List Char) : Nat := (String.ofList text).utf8ByteSize

@[simp] theorem bytes_nil : bytes [] = 0 := by simp [bytes]

@[simp] theorem bytes_cons {c : Char} : bytes (c :: text) = c.utf8Size + bytes text := by
  simp [bytes, String.ofList_cons]

@[simp] theorem bytes_append {later : List Char} :
    bytes (text ++ later) = bytes text + bytes later := by
  simp [bytes]

/-- Cut a text at a byte position; fails if the text is too short, or if the position lies
    within a character. -/
def cut? : List Char → Nat → Option (List Char × List Char)
  | text, 0 => some ([], text)
  | [], _ + 1 => none
  | c :: text, n + 1 =>
    if c.utf8Size ≤ n + 1 then
      (cut? text (n + 1 - c.utf8Size)).map fun parts => (c :: parts.1, parts.2)
    else none

/-- The part of a text from one byte position to another, which must not come before it. -/
def slice? (text : List Char) (start stop : Nat) : Option (List Char) :=
  if start ≤ stop then do
    let (_, rest) ← cut? text start
    let (part, _) ← cut? rest (stop - start)
    return part
  else none

theorem cut?_eq_some {n : Nat} :
    cut? text n = some (gap, rest) ↔ text = gap ++ rest ∧ n = bytes gap := by
  induction text, n using cut?.induct generalizing gap with
  | case1 text =>
    simp only [cut?, Option.some.injEq, Prod.mk.injEq]
    constructor
    · rintro ⟨rfl, rfl⟩
      exact ⟨rfl, bytes_nil.symm⟩
    · rintro ⟨rfl, hgap⟩
      cases gap with
      | nil => exact ⟨rfl, rfl⟩
      | cons c gap =>
        have := c.utf8Size_pos
        rw [bytes_cons] at hgap
        omega
  -- The text is too short.
  | case2 n =>
    simp only [cut?, reduceCtorEq, false_iff]
    rintro ⟨htext, hgap⟩
    obtain ⟨rfl, -⟩ := List.nil_eq_append_iff.mp htext
    cases hgap
  | case3 c text n hfits ih =>
    simp only [cut?, if_pos hfits, Option.map_eq_some_iff, Prod.mk.injEq, Prod.exists]
    constructor
    · rintro ⟨gap, rest, hcut, rfl, rfl⟩
      obtain ⟨rfl, hgap⟩ := ih.mp hcut
      exact ⟨rfl, by rw [bytes_cons]; omega⟩
    · rintro ⟨htext, hgap⟩
      cases gap with
      | nil => cases hgap
      | cons d gap =>
        obtain ⟨rfl, rfl⟩ := List.cons.inj htext
        rw [bytes_cons] at hgap
        exact ⟨gap, rest, ih.mpr ⟨rfl, by omega⟩, rfl, rfl⟩
  -- The position lies within the next character.
  | case4 c text n hfits =>
    simp only [cut?, if_neg hfits, reduceCtorEq, false_iff]
    rintro ⟨htext, hgap⟩
    cases gap with
    | nil => cases hgap
    | cons d gap =>
      obtain ⟨rfl, rfl⟩ := List.cons.inj htext
      rw [bytes_cons] at hgap
      omega

/-- The part between two runs of characters is cut out at their ends. -/
theorem slice?_append (gap part rest : List Char) :
    slice? (gap ++ part ++ rest) (bytes gap) (bytes gap + bytes part) = some part := by
  have hstart : cut? (gap ++ (part ++ rest)) (bytes gap) = some (gap, part ++ rest) :=
    cut?_eq_some.mpr ⟨rfl, rfl⟩
  have hstop : cut? (part ++ rest) (bytes part) = some (part, rest) :=
    cut?_eq_some.mpr ⟨rfl, rfl⟩
  simp [slice?, hstart, hstop]

/-! ### Matching by byte positions -/

/-- The byte position at which a piece first occurs. -/
def find? (piece : List Char) : List Char → Option Nat
  | [] => if piece.isEmpty then some 0 else none
  | c :: rest =>
    if piece.isPrefixOf (c :: rest) then some 0 else (find? piece rest).map (c.utf8Size + ·)

/-- Find the pieces one after another, each in what is cut off after the one before it. -/
def cutInOrder? : List (List Char) → List Char → Option Bool
  | [], _ => some true
  | piece :: ps, text =>
    match find? piece text with
    | some i => (slice? text (i + bytes piece) (bytes text)).bind (cutInOrder? ps)
    | none => some false

/-- Match a text against a pattern by cutting it at byte positions; fails if one of the cuts
    does. -/
def cutMatch? (pattern text : List Char) : Option Bool :=
  match pieces pattern with
  | [] => some false
  | [piece] => some (piece == text)
  | first :: more =>
    let last := more.getLastD []
    if !first.isPrefixOf text || bytes text < bytes first + bytes last || !last.isSuffixOf text then
      some false
    else
      (slice? text (bytes first) (bytes text - bytes last)).bind (cutInOrder? more.dropLast)

/-- The first occurrence by its position and by what is left after it. -/
theorem find?_cases (piece text : List Char) :
    find? piece text = none ∧ afterFirst piece text = none ∨
      ∃ gap rest, text = gap ++ piece ++ rest ∧ find? piece text = some (bytes gap) ∧
        afterFirst piece text = some rest := by
  induction text with
  | nil =>
    cases piece with
    | nil => exact .inr ⟨[], [], rfl, by simp [find?], rfl⟩
    | cons c piece => exact .inl ⟨rfl, rfl⟩
  | cons c text ih =>
    unfold find? afterFirst
    by_cases hstarts : piece.isPrefixOf (c :: text) = true
    · obtain ⟨rest, hrest⟩ := List.isPrefixOf_iff_prefix.mp hstarts
      refine .inr ⟨[], rest, by simpa using hrest.symm, by simp [hstarts], ?_⟩
      rw [if_pos hstarts, ← hrest, List.drop_left]
    · simp only [if_neg hstarts]
      rcases ih with ⟨hfind, hfirst⟩ | ⟨gap, rest, rfl, hfind, hfirst⟩
      · exact .inl ⟨by rw [hfind]; rfl, hfirst⟩
      · exact .inr ⟨c :: gap, rest, rfl, by rw [hfind, bytes_cons]; rfl, hfirst⟩

theorem cutInOrder?_eq : cutInOrder? ps text = some (inOrder ps text) := by
  induction ps generalizing text with
  | nil => rfl
  | cons piece ps ih =>
    unfold cutInOrder? inOrder
    rcases find?_cases piece text with ⟨hfind, hfirst⟩ | ⟨gap, rest, rfl, hfind, hfirst⟩
    · rw [hfind, hfirst]
    · have hslice := slice?_append (gap ++ piece) rest []
      simp only [List.append_nil, bytes_append] at hslice
      simp only [hfind, hfirst, bytes_append, hslice, Option.bind_some, ih]

/-- To have room for two pieces is the same in bytes and in characters. -/
theorem room_iff (hfirst : first <+: text) (hlast : last <:+ text) :
    bytes first + bytes last ≤ bytes text ↔ first.length + last.length ≤ text.length := by
  obtain ⟨tail, rfl⟩ := hfirst
  rw [bytes_append, List.length_append, Nat.add_le_add_iff_left, Nat.add_le_add_iff_left]
  rcases List.suffix_or_suffix_of_suffix hlast (List.suffix_append first tail) with
    ⟨before, rfl⟩ | ⟨before, rfl⟩
  · simp
  · -- Here the last piece reaches into the first one, if it is longer at all.
    cases before with
    | nil => simp
    | cons c before =>
      have := c.utf8Size_pos
      simp only [List.cons_append, bytes_cons, bytes_append, List.length_cons, List.length_append]
      omega

/-- The room for the first piece and the last may be looked for in bytes. -/
theorem between_eq (first last text : List Char) :
    (!first.isPrefixOf text || decide (bytes text < bytes first + bytes last) ||
      !last.isSuffixOf text) = !between first last text := by
  unfold between
  cases hfirst : first.isPrefixOf text with
  | false => rfl
  | true =>
    cases hlast : last.isSuffixOf text with
    | false => simp
    | true =>
      have hroom := room_iff (List.isPrefixOf_iff_prefix.mp hfirst)
        (List.isSuffixOf_iff_suffix.mp hlast)
      rw [← Nat.not_lt] at hroom
      by_cases hshort : bytes text < bytes first + bytes last <;> simp_all

theorem cutMatch?_eq : cutMatch? pattern text = some (matchesChars pattern text) := by
  unfold cutMatch? matchesChars
  match pieces pattern with
  | [] => rfl
  | [piece] => rfl
  | first :: next :: more =>
    simp only [between_eq]
    cases hbetween : between first ((next :: more).getLastD []) text with
    | false => rfl
    | true =>
      obtain ⟨inner, rfl⟩ := between_iff.mp hbetween
      have hslice := slice?_append first inner ((next :: more).getLastD [])
      rw [take_drop_append]
      simp only [bytes_append, Nat.add_sub_cancel, hslice, Bool.not_true, Bool.false_eq_true,
        if_false, Option.bind_some, Bool.true_and, cutInOrder?_eq]

/-- A pattern matches exactly the texts that come from it by putting a run of characters in the
    place of each `*`; and no cut of the matching by byte positions ever fails, wherever it
    takes place. -/
theorem isMatch_exact (pattern text : String) :
    (isMatch pattern text = true ↔ Fills pattern.toList text.toList) ∧
      cutMatch? pattern.toList text.toList = some (isMatch pattern text) :=
  ⟨matchesChars_iff, cutMatch?_eq⟩

end ExecutionControl.Glob
