import ExecutionControl.Proofs.Json.Numbers

/-! # Values that are written and read

    The compact text of a value is read back as that value, whatever may follow it, if its
    arrays and objects are nested no deeper than the reader goes, its numbers are whole and of
    64 bits, and the keys of its objects ascend (`Within`, `reads_value`). The induction is on
    the value: what is inside an array or an object is read by the reader one level down. The
    items of an array, and the fields of an object, follow one another each after a comma
    (`itemChars_cons`, `fieldChars_cons`), so that one step of the reader takes one of them;
    and a key that is above all others is put behind them (`insertField_of_above`), so that the
    fields of an object come out in the order in which they stand in the text.
-/

namespace ExecutionControl.Json

open Text

/-- Values with arrays and objects nested at most `depth` levels deep, with whole numbers of 64
    bits, with or without a sign, for numbers, and with the keys of each object in ascending
    order, each once. -/
inductive Within : Nat → Json → Prop
  | null {depth : Nat} : Within depth .null
  | bool {depth : Nat} (b : Bool) : Within depth (.bool b)
  | int {depth : Nat} {i : Int} (low : -(Nat.pow 2 63 : Int) ≤ i) (high : i ≤ maxWord64) :
      Within depth (.num (.int i))
  | str {depth : Nat} (s : String) : Within depth (.str s)
  | arr {depth : Nat} {items : List Json} (inside : ∀ item ∈ items, Within depth item) :
      Within (depth + 1) (.arr items)
  | obj {depth : Nat} {fields : List (String × Json)} (ascending : fields.Pairwise (·.1 < ·.1))
      (inside : ∀ p ∈ fields, Within depth p.2) : Within (depth + 1) (.obj fields)

variable {r : Reader Json} {nested : Option (Reader Json)} {fuel : Fuel} {first : Bool}
  {c : Char} {cs rest : List Char} {key : String} {j : Json} {items : List Json}
  {fields sofar : List (String × Json)} {depth : Nat} {i : Int}

/-! ### Texts -/

/-- A field of an object as it is written: its key, a colon and its value. -/
def fieldText (p : String × Json) : List Char := stringChars p.1 ++ ':' :: p.2.chars

/-- The items after the first are written each after a comma. -/
theorem itemChars_cons (j : Json) (items : List Json) :
    itemChars (j :: items) = j.chars ++ items.flatMap (fun j => ',' :: j.chars) := by
  induction items generalizing j with
  | nil => rw [itemChars, List.flatMap_nil, List.append_nil]
  | cons k items ih =>
    rw [itemChars, ih k, List.flatMap_cons]
    · rfl
    · exact List.cons_ne_nil _ _

/-- The fields after the first are written each after a comma. -/
theorem fieldChars_cons (p : String × Json) (fields : List (String × Json)) :
    fieldChars (p :: fields) = fieldText p ++ fields.flatMap (fun p => ',' :: fieldText p) := by
  induction fields generalizing p with
  | nil =>
    rw [fieldChars, List.flatMap_nil, List.append_nil]
    rfl
  | cons q fields ih =>
    rw [fieldChars, ih q]
    · simp only [fieldText, List.flatMap_cons, List.append_assoc, List.cons_append]
    · exact List.cons_ne_nil _ _

/-- What is written each after a comma is at least as long as there are parts of it. -/
theorem length_le_flatMap {α : Type} (text : α → List Char) (parts : List α) :
    parts.length ≤ (parts.flatMap (fun a => ',' :: text a)).length := by
  induction parts with
  | nil => exact Nat.le_refl 0
  | cons a parts ih =>
    simp only [List.flatMap_cons, List.cons_append, List.length_cons, List.length_append]
    omega

/-! ### Scalars -/

theorem isGap_of_isDigit (h : c.isDigit) : isGap c = false := by
  apply Bool.eq_false_iff.mpr
  intro hgap
  simp only [isGap, Bool.or_eq_true, beq_iff_eq] at hgap
  obtain ((rfl | rfl) | rfl) | rfl := hgap <;> exact absurd h (by decide)

/-- The first character of a number tells that a number comes. -/
theorem readValueWith_digit (h : c.isDigit) {n : Number}
    (hread : Reads (readNumber false) (c :: cs) n rest) :
    Reads (readValueWith nested) (c :: cs) (.num n) rest := by
  refine (reads_peek (isGap_of_isDigit h) cs).bind ?_
  split
  case h_1 hc => cases hc
  case h_9 d _ _ _ _ _ _ _ hc =>
    cases hc
    rw [digitValue?_of_isDigit h, Option.isSome_some, if_pos rfl]
    refine hread.bind ?_
    exact .pure _ _
  -- The other characters that a value can start with are no digits.
  all_goals
    rename_i hc
    cases hc
    exact absurd h (by decide)

/-- A whole number of 64 bits is read from its text. -/
theorem reads_int (hlow : -(Nat.pow 2 63 : Int) ≤ i) (hhigh : i ≤ maxWord64)
    (hrest : Closes rest) :
    Reads (readValueWith nested) ((toString i).toList ++ rest) (.num (.int i)) rest := by
  cases i with
  | ofNat n =>
    have hn : n ≤ maxWord64 := Int.ofNat_le.mp hhigh
    obtain ⟨c, cs, hcs, hdigit⟩ := exists_digit n
    have hread := reads_digits false hn hrest
    show Reads (readValueWith nested) ((toString n).toList ++ rest) _ rest
    rw [hcs, List.cons_append] at hread ⊢
    exact readValueWith_digit hdigit hread
  | negSucc n =>
    have hsmall : n + 1 ≤ Nat.pow 2 63 := by omega
    have hn : n + 1 ≤ maxWord64 := Nat.le_trans hsmall (by decide)
    have hnumber : wholeNumber true (n + 1) = .int (Int.negSucc n) := by
      show (if 1 ≤ n + 1 ∧ n + 1 ≤ Nat.pow 2 63 then Number.int (Int.negSucc n) else _) = _
      rw [if_pos ⟨Nat.le_add_left 1 n, hsmall⟩]
    rw [toList_toString_negSucc, List.cons_append]
    refine (reads_peek rfl _).bind ?_
    refine (reads_skipOne _ _).bind ?_
    refine (reads_digits true hn hrest).bind ?_
    rw [hnumber]
    exact .pure _ _

theorem reads_string (s : String) (rest : List Char) :
    Reads (readValueWith nested) (stringChars s ++ rest) (.str s) rest := by
  rw [stringChars, List.cons_append, List.append_assoc]
  refine (reads_peek rfl _).bind ?_
  refine (reads_skipOne _ _).bind ?_
  refine (reads_stringRest s rest).bind ?_
  exact .pure _ _

theorem reads_null (rest : List Char) :
    Reads (readValueWith nested) (chars .null ++ rest) .null rest := by
  refine (reads_peek rfl _).bind ?_
  refine (reads_word "null".toList rest).bind ?_
  exact .pure _ _

theorem reads_bool (b : Bool) (rest : List Char) :
    Reads (readValueWith nested) (chars (.bool b) ++ rest) (.bool b) rest := by
  cases b with
  | true =>
    refine (reads_peek rfl _).bind ?_
    refine (reads_word "true".toList rest).bind ?_
    exact .pure _ _
  | false =>
    refine (reads_peek rfl _).bind ?_
    refine (reads_word "false".toList rest).bind ?_
    exact .pure _ _

/-- The reader reads a value back from its text, whatever may follow it. -/
def ReadsBack (r : Reader Json) (j : Json) : Prop :=
  ∀ rest, Closes rest → Reads r (j.chars ++ rest) j rest

/-! ### Arrays -/

theorem closes_flatMap {α : Type} (text : α → List Char) (parts : List α) (h : Closes rest) :
    Closes (parts.flatMap (fun a => ',' :: text a) ++ rest) := by
  cases parts with
  | nil => exact h
  | cons a parts => exact .comma _

/-- The text of a value starts neither with a gap nor with the end of an array. -/
theorem Within.starts (h : Within depth j) :
    ∃ c cs, j.chars = c :: cs ∧ isGap c = false ∧ c ≠ ']' := by
  cases h with
  | null => exact ⟨_, _, rfl, rfl, by decide⟩
  | bool b => cases b <;> exact ⟨_, _, rfl, rfl, by decide⟩
  | @int _ i _ _ =>
    cases i with
    | ofNat n =>
      obtain ⟨c, cs, hcs, hdigit⟩ := exists_digit n
      exact ⟨c, cs, hcs, isGap_of_isDigit hdigit, ne_of_isDigit hdigit rfl⟩
    | negSucc n => exact ⟨_, _, toList_toString_negSucc n, rfl, by decide⟩
  | str s => exact ⟨_, _, rfl, rfl, by decide⟩
  | arr _ => exact ⟨_, _, rfl, rfl, by decide⟩
  | obj _ _ => exact ⟨_, _, rfl, rfl, by decide⟩

theorem reads_firstItem (hgap : isGap c = false) (hc : c ≠ ']') (cs : List Char) :
    Reads (nextItem true) (c :: cs) true (c :: cs) := by
  refine (reads_peek hgap cs).bind ?_
  split
  case h_1 hsome => cases hsome
  case h_2 hsome => exact absurd (Option.some.inj hsome) hc
  case h_3 => exact .pure _ _

theorem reads_laterItem (hgap : isGap c = false) (hc : c ≠ ']') (cs : List Char) :
    Reads (nextItem false) (',' :: c :: cs) true (c :: cs) := by
  refine (reads_peek rfl _).bind ?_
  refine (reads_skipOne _ _).bind ?_
  refine (reads_peek hgap cs).bind ?_
  split
  case h_1 hsome => cases hsome
  case h_2 hsome => exact absurd (Option.some.inj hsome) hc
  case h_3 => exact .pure _ _

theorem reads_noItem (first : Bool) (cs : List Char) :
    Reads (nextItem first) (']' :: cs) false (']' :: cs) :=
  (reads_peek rfl cs).bind (.pure _ _)

theorem reads_endArray (cs : List Char) : Reads endArray (']' :: cs) () cs :=
  (reads_peek rfl cs).bind (reads_skipOne _ _)

/-- The items after the first are read one after another, each after its comma. -/
theorem reads_laterItems (hitems : ∀ item ∈ items, Within depth item)
    (hread : ∀ item ∈ items, ReadsBack r item) (hfuel : items.length < fuel.length)
    (rest : List Char) :
    Reads (readItems r fuel false) (items.flatMap (fun j => ',' :: j.chars) ++ ']' :: rest) items
      (']' :: rest) := by
  induction items generalizing fuel with
  | nil =>
    obtain ⟨_, fuel, rfl⟩ := List.exists_cons_of_length_pos (Nat.zero_lt_of_lt hfuel)
    exact (reads_noItem false rest).bind (.pure _ _)
  | cons item items ih =>
    obtain ⟨_, fuel, rfl⟩ := List.exists_cons_of_length_pos (Nat.zero_lt_of_lt hfuel)
    obtain ⟨c, cs, hcs, hgap, hc⟩ := (hitems item List.mem_cons_self).starts
    have hitem := hread item List.mem_cons_self _ (closes_flatMap chars items (.items rest))
    have hlater := ih (fun k hk => hitems k (List.mem_cons_of_mem _ hk))
      (fun k hk => hread k (List.mem_cons_of_mem _ hk)) (Nat.lt_of_succ_lt_succ hfuel)
    rw [List.flatMap_cons, List.cons_append, List.cons_append, List.append_assoc, hcs]
    rw [hcs] at hitem
    refine (reads_laterItem hgap hc _).bind ?_
    refine hitem.bind ?_
    refine hlater.bind ?_
    exact .pure _ _

/-- The items of an array are read up to its closing bracket. -/
theorem reads_items (hitems : ∀ item ∈ items, Within depth item)
    (hread : ∀ item ∈ items, ReadsBack r item) (rest : List Char) :
    Reads (withFuel fun fuel => readItems r fuel true) (itemChars items ++ ']' :: rest) items
      (']' :: rest) := by
  cases items with
  | nil => exact (reads_noItem true rest).bind (.pure _ _)
  | cons item items =>
    obtain ⟨c, cs, hcs, hgap, hc⟩ := (hitems item List.mem_cons_self).starts
    have hitem := hread item List.mem_cons_self _ (closes_flatMap chars items (.items rest))
    rw [itemChars_cons, List.append_assoc, hcs]
    rw [hcs] at hitem
    refine (reads_firstItem hgap hc _).bind ?_
    refine hitem.bind ?_
    refine (reads_laterItems (fun k hk => hitems k (List.mem_cons_of_mem _ hk))
      (fun k hk => hread k (List.mem_cons_of_mem _ hk)) ?_ rest).bind ?_
    · have hlength := length_le_flatMap chars items
      simp only [List.length_cons, List.length_append]
      omega
    · exact .pure _ _

/-! ### Objects -/

theorem reads_firstKey (key : String) (cs : List Char) :
    Reads (nextKey true) (stringChars key ++ cs) (some key) cs := by
  rw [stringChars, List.cons_append, List.append_assoc]
  refine (reads_peek rfl _).bind ?_
  refine (reads_peek rfl _).bind ?_
  refine (reads_skipOne _ _).bind ?_
  exact (reads_stringRest key cs).map some

theorem reads_laterKey (key : String) (cs : List Char) :
    Reads (nextKey false) (',' :: (stringChars key ++ cs)) (some key) cs := by
  rw [stringChars, List.cons_append, List.append_assoc]
  refine (reads_peek rfl _).bind ?_
  refine (reads_skipOne _ _).bind ?_
  refine (reads_peek rfl _).bind ?_
  refine (reads_skipOne _ _).bind ?_
  exact (reads_stringRest key cs).map some

theorem reads_noKey (first : Bool) (cs : List Char) :
    Reads (nextKey first) ('\x7d' :: cs) none ('\x7d' :: cs) :=
  (reads_peek rfl cs).bind (.pure _ _)

theorem reads_colon (cs : List Char) : Reads readColon (':' :: cs) () cs :=
  (reads_peek rfl cs).bind (reads_skipOne _ _)

theorem reads_endObject (cs : List Char) : Reads endObject ('\x7d' :: cs) () cs :=
  (reads_peek rfl cs).bind (reads_skipOne _ _)

/-- A key above all others is put behind them. -/
theorem insertField_of_above (h : ∀ p ∈ sofar, p.1 < key) :
    insertField key j sofar = sofar ++ [(key, j)] := by
  induction sofar with
  | nil => rfl
  | cons p sofar ih =>
    have hp := h p List.mem_cons_self
    have hne : key ≠ p.1 := fun heq => String.lt_irrefl key (heq ▸ hp)
    rw [insertField, if_neg (String.lt_asymm hp), if_neg hne,
      ih fun q hq => h q (List.mem_cons_of_mem _ hq)]
    rfl

/-- The fields after the first are read one after another, each after its comma, and put behind
    those already read. -/
theorem reads_laterFields (hread : ∀ p ∈ fields, ReadsBack r p.2)
    (hascending : (sofar ++ fields).Pairwise (·.1 < ·.1)) (hfuel : fields.length < fuel.length)
    (rest : List Char) :
    Reads (readFields r fuel false sofar)
      (fields.flatMap (fun p => ',' :: fieldText p) ++ '\x7d' :: rest) (sofar ++ fields)
      ('\x7d' :: rest) := by
  induction fields generalizing fuel sofar with
  | nil =>
    obtain ⟨_, fuel, rfl⟩ := List.exists_cons_of_length_pos (Nat.zero_lt_of_lt hfuel)
    rw [List.append_nil]
    exact (reads_noKey false rest).bind (.pure _ _)
  | cons p fields ih =>
    obtain ⟨_, fuel, rfl⟩ := List.exists_cons_of_length_pos (Nat.zero_lt_of_lt hfuel)
    -- Every field that was read stands before this one, which so goes to the end.
    have habove : ∀ q ∈ sofar, q.1 < p.1 := by
      intro q hq
      exact (List.pairwise_append.mp hascending).2.2 q hq p List.mem_cons_self
    have hvalue := hread p List.mem_cons_self _ (closes_flatMap fieldText fields (.fields rest))
    have happend : sofar ++ p :: fields = (sofar ++ [p]) ++ fields := by
      rw [List.append_assoc, List.singleton_append]
    rw [happend] at hascending ⊢
    have hlater := ih (fun q hq => hread q (List.mem_cons_of_mem _ hq)) hascending
      (Nat.lt_of_succ_lt_succ hfuel)
    rw [List.flatMap_cons, List.cons_append, List.cons_append, List.append_assoc, fieldText,
      List.append_assoc, List.cons_append]
    refine (reads_laterKey p.1 _).bind ?_
    refine (reads_colon _).bind ?_
    refine hvalue.bind ?_
    rw [insertField_of_above habove]
    exact hlater

/-- The fields of an object are read up to its closing brace, in the order in which they are
    written. -/
theorem reads_fields (hascending : fields.Pairwise (·.1 < ·.1))
    (hread : ∀ p ∈ fields, ReadsBack r p.2) (rest : List Char) :
    Reads (withFuel fun fuel => readFields r fuel true []) (fieldChars fields ++ '\x7d' :: rest)
      fields ('\x7d' :: rest) := by
  cases fields with
  | nil => exact (reads_noKey true rest).bind (.pure _ _)
  | cons p fields =>
    have hvalue := hread p List.mem_cons_self _ (closes_flatMap fieldText fields (.fields rest))
    rw [fieldChars_cons, fieldText, List.append_assoc, List.append_assoc, List.cons_append]
    refine (reads_firstKey p.1 _).bind ?_
    refine (reads_colon _).bind ?_
    refine hvalue.bind ?_
    refine reads_laterFields (fun q hq => hread q (List.mem_cons_of_mem _ hq)) hascending ?_ rest
    have hlength := length_le_flatMap fieldText fields
    simp only [List.length_cons, List.length_append]
    omega

/-! ### Values -/

theorem exists_nested (depth : Nat) : ∃ nested, readValue depth = readValueWith nested := by
  cases depth with
  | zero => exact ⟨none, rfl⟩
  | succ depth => exact ⟨some (readValue depth), rfl⟩

/-- A value within the depth of a reader is read back from its text. -/
theorem reads_value (h : Within depth j) : ReadsBack (readValue depth) j := by
  induction h with
  | @null depth =>
    intro rest _
    obtain ⟨nested, hnested⟩ := exists_nested depth
    rw [hnested]
    exact reads_null rest
  | @bool depth b =>
    intro rest _
    obtain ⟨nested, hnested⟩ := exists_nested depth
    rw [hnested]
    exact reads_bool b rest
  | @int depth _ low high =>
    intro rest hrest
    obtain ⟨nested, hnested⟩ := exists_nested depth
    rw [hnested]
    exact reads_int low high hrest
  | @str depth s =>
    intro rest _
    obtain ⟨nested, hnested⟩ := exists_nested depth
    rw [hnested]
    exact reads_string s rest
  | arr inside ih =>
    -- The reader of the items is the reader of this depth, and of them the induction speaks.
    intro rest _
    rw [chars, List.cons_append, List.append_assoc]
    refine (reads_peek rfl _).bind ?_
    refine (reads_skipOne _ _).bind ?_
    refine (reads_items inside ih rest).bind ?_
    refine (reads_endArray rest).bind ?_
    exact .pure _ _
  | obj ascending inside ih =>
    intro rest _
    rw [chars, List.cons_append, List.append_assoc]
    refine (reads_peek rfl _).bind ?_
    refine (reads_skipOne _ _).bind ?_
    refine (reads_fields ascending ih rest).bind ?_
    refine (reads_endObject rest).bind ?_
    exact .pure _ _

/-- A text is read as a whole by a reader that takes all of it. -/
theorem readWhole_of_reads {α : Type} {r : Reader α} {a : α} {s : String}
    (h : Reads r s.toList a []) : readWhole r s = .ok a := by
  show (r s.toList >>= _) = _
  rw [h]
  rfl

/-- The text of a value is read as that value. -/
theorem parse_text (h : Within maxDepth j) : parse j.text = .ok j := by
  have hread := reads_value h [] .whole
  rw [List.append_nil] at hread
  exact readWhole_of_reads (by rw [text, String.toList_ofList]; exact hread)

end ExecutionControl.Json
