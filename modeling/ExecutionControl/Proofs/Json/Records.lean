import ExecutionControl.Json.Record
import ExecutionControl.Proofs.Json.Values

/-! # Records that are written and read

    A record is written as an object of its fields. Its reader takes the fields one by one into
    a draft: a field is known, it is not given yet, and what stands behind its colon is read
    into the draft (`Takes`). When the fields of an object fill a draft in this way (`Fills`),
    and the draft is complete, the text of the object is read as the record.
-/

namespace ExecutionControl.Json

open Text

variable {σ α : Type} {fields : List (Field σ)} {draft mid filled : σ} {p : String × Json}
  {parts : List (String × Json)} {closed : Bool} {fuel : Fuel} {cs rest : List Char}
  {limit n : Nat}

/-! ### Scalars -/

theorem reads_text (s : String) (rest : List Char) :
    Reads readText (stringChars s ++ rest) s rest := by
  rw [stringChars, List.cons_append, List.append_assoc]
  refine (reads_peek rfl _).bind ?_
  refine (reads_skipOne _ _).bind ?_
  exact reads_stringRest s rest

/-- A natural number of 64 bits is read from its text. -/
theorem reads_natUpTo (h : n ≤ limit) (hfits : n ≤ maxWord64) (hrest : Closes rest) :
    Reads (readNatUpTo limit) ((nat n).chars ++ rest) n rest := by
  obtain ⟨c, cs, hcs, hdigit⟩ := exists_digit n
  have hread := reads_digits false hfits hrest
  have hnumber : Reads readAnyNumber ((toString n).toList ++ rest) (.int n) rest := by
    rw [hcs, List.cons_append] at hread ⊢
    refine (reads_peek (isGap_of_isDigit hdigit) _).bind ?_
    split
    case h_1 hsome => cases hsome
    case h_2 hsome => exact absurd (Option.some.inj hsome) (ne_of_isDigit hdigit rfl)
    case h_3 hsome =>
      cases hsome
      rw [digitValue?_of_isDigit hdigit, Option.isSome_some, if_pos rfl]
      exact hread
  refine hnumber.bind ?_
  show Reads (if 0 ≤ (n : Int) ∧ (n : Int) ≤ limit then pure (n : Int).toNat else _) rest n rest
  rw [if_pos ⟨Int.natCast_nonneg n, Int.ofNat_le.mpr h⟩]
  exact .pure _ _

/-- What is present is read as what it is, if it does not look like `null`. -/
theorem reads_some {r : Reader α} {a : α} {c : Char} (hgap : isGap c = false) (hc : c ≠ 'n')
    (h : Reads r (c :: cs) a rest) : Reads (readOption r) (c :: cs) (some a) rest := by
  refine (reads_peek hgap cs).bind ?_
  split
  case h_1 hsome => exact absurd (Option.some.inj hsome) hc
  case h_2 => exact h.map some

/-! ### Fields -/

/-- A field of an object is read into a draft. -/
def Takes (fields : List (Field σ)) (draft : σ) (p : String × Json) (filled : σ) : Prop :=
  ∃ f, fields.find? (fun f => f.name == p.1) = some f ∧ f.given draft = false ∧
    ∀ rest, Closes rest → Reads (f.read draft) (p.2.chars ++ rest) filled rest

/-- The fields of an object are read into a draft, one after another. -/
inductive Fills (fields : List (Field σ)) : σ → List (String × Json) → σ → Prop
  | done (draft : σ) : Fills fields draft [] draft
  | field {draft mid filled : σ} {p : String × Json} {parts : List (String × Json)}
      (takes : Takes fields draft p mid) (later : Fills fields mid parts filled) :
      Fills fields draft (p :: parts) filled

/-- One field is read, after its key. -/
theorem Takes.reads (h : Takes fields draft p mid) {first : Bool} {x : Char} {after : List Char}
    (hkey : Reads (nextKey first) cs (some p.1) (':' :: (p.2.chars ++ after)))
    (hafter : Closes after)
    (hlater : Reads (readNamed fields closed fuel false mid) after filled rest) :
    Reads (readNamed fields closed (x :: fuel) first draft) cs filled rest := by
  obtain ⟨f, hfound, hgiven, hread⟩ := h
  refine hkey.bind ?_
  simp only [hfound, hgiven]
  refine (reads_colon _).bind ?_
  refine (hread after hafter).bind ?_
  exact hlater

theorem Fills.reads_later (h : Fills fields draft parts filled) (hfuel : parts.length < fuel.length)
    (rest : List Char) :
    Reads (readNamed fields closed fuel false draft)
      (parts.flatMap (fun p => ',' :: fieldText p) ++ '\x7d' :: rest) filled ('\x7d' :: rest) := by
  induction h generalizing fuel with
  | done draft =>
    obtain ⟨_, fuel, rfl⟩ := List.exists_cons_of_length_pos (Nat.zero_lt_of_lt hfuel)
    exact (reads_noKey false rest).bind (.pure _ _)
  | @field draft mid filled p parts takes _ ih =>
    obtain ⟨_, fuel, rfl⟩ := List.exists_cons_of_length_pos (Nat.zero_lt_of_lt hfuel)
    rw [List.flatMap_cons, List.cons_append, List.cons_append, List.append_assoc, fieldText,
      List.append_assoc, List.cons_append]
    refine takes.reads (reads_laterKey p.1 _) ?_ (ih (Nat.lt_of_succ_lt_succ hfuel))
    exact closes_flatMap fieldText parts (.fields rest)

theorem Fills.reads (h : Fills fields draft parts filled) (rest : List Char) :
    Reads (withFuel fun fuel => readNamed fields closed fuel true draft)
      (fieldChars parts ++ '\x7d' :: rest) filled ('\x7d' :: rest) := by
  cases h with
  | done => exact (reads_noKey true rest).bind (.pure _ _)
  | @field _ mid _ p parts takes later =>
    rw [fieldChars_cons, fieldText, List.append_assoc, List.append_assoc, List.cons_append]
    show Reads (readNamed fields closed (' ' :: _) true draft) _ _ _
    refine takes.reads (reads_firstKey p.1 _) ?_ (later.reads_later ?_ rest)
    · exact closes_flatMap fieldText parts (.fields rest)
    · have hlength := length_le_flatMap fieldText parts
      simp only [List.length_cons, List.length_append]
      omega

/-- A record is read from the object of its fields. -/
theorem reads_record {empty : σ} {finish : σ → Option α} {a : α}
    (h : Fills fields empty parts filled) (hfinish : finish filled = some a) (depth : Nat)
    (rest : List Char) :
    Reads (readRecord fields closed empty finish (depth + 1)) (chars (.obj parts) ++ rest) a
      rest := by
  rw [chars, List.cons_append, List.append_assoc]
  refine (reads_peek rfl _).bind ?_
  refine (reads_skipOne _ _).bind ?_
  refine (h.reads rest).bind ?_
  simp only [hfinish, Option.elim_some]
  refine (Reads.pure a _).bind ?_
  refine (reads_endObject rest).bind ?_
  exact .pure _ _

end ExecutionControl.Json
