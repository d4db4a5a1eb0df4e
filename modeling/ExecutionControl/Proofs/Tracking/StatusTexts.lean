import Mathlib.Data.List.Forall2
import Mathlib.Data.List.TakeWhile
import ExecutionControl.Tracking.Tracker

/-! # Texts that name a status

    A status arrives as text from queues and from operators: with blanks around it, in any
    letter case, and with or without the qualifier. What such a text may be is said here
    without the steps of the reader (`Names`): the text between the outermost blanks
    (`Trimmed`) is a name, or a name after the qualifier and a dot, letter by letter up to the
    case of ASCII letters (`SameText`).

    The reader takes the first dot for the one after the qualifier, and compares what is before
    and after it on its own. No name has a dot in it and letter case makes none, so that texts
    which agree up to letter case have their first dots in the same place
    (`sameText_split`). From that the reader accepts these texts and no others
    (`parse_accepts_names`); and as it is read before the store is touched, a text does what
    the status does that it names, or nothing.
-/

namespace ExecutionControl

namespace Text

/-! ### Letter case -/

/-- Two characters are the same, or the same ASCII letter. -/
inductive SameLetter : Char → Char → Prop
  | same (c : Char) : SameLetter c c
  | capital {c d : Char} : c.isUpper = true → d.toNat = c.toNat + 32 → SameLetter c d
  | small {c d : Char} : d.isUpper = true → c.toNat = d.toNat + 32 → SameLetter c d

/-- Two texts are the same up to the case of ASCII letters. -/
abbrev SameText (a b : List Char) : Prop := List.Forall₂ SameLetter a b

theorem isUpper_iff {c : Char} : c.isUpper = true ↔ 65 ≤ c.toNat ∧ c.toNat ≤ 90 :=
  decide_eq_true_iff

theorem toNat_toLower (c : Char) :
    c.toLower.toNat = if c.isUpper then c.toNat + 32 else c.toNat := by
  by_cases h : c.isUpper = true
  · have hval : c.toLower.val = c.val + 32 := congrArg Char.val (dif_pos (decide_eq_true_iff.mp h))
    have hbound : c.val.toNat ≤ 90 := (isUpper_iff.mp h).2
    rw [if_pos h]
    show c.toLower.val.toNat = c.val.toNat + 32
    rw [hval, UInt32.toNat_add]
    exact Nat.mod_eq_of_lt (by show c.val.toNat + 32 < _; omega)
  · have hsame : c.toLower = c := dif_neg fun hupper => h (decide_eq_true_iff.mpr hupper)
    rw [if_neg h, hsame]

theorem toLower_eq_iff {c d : Char} : c.toLower = d.toLower ↔ SameLetter c d := by
  have hlower : c.toLower = d.toLower ↔ c.toLower.toNat = d.toLower.toNat :=
    Char.toNat_inj.symm
  rw [hlower, toNat_toLower, toNat_toLower]
  constructor
  · intro h
    by_cases hc : c.isUpper = true
    · by_cases hd : d.isUpper = true
      · rw [if_pos hc, if_pos hd] at h
        cases Char.toNat_inj.mp (Nat.add_right_cancel h)
        exact .same c
      · rw [if_pos hc, if_neg hd] at h
        exact .capital hc h.symm
    · by_cases hd : d.isUpper = true
      · rw [if_neg hc, if_pos hd] at h
        exact .small hd h
      · rw [if_neg hc, if_neg hd] at h
        cases Char.toNat_inj.mp h
        exact .same c
  · intro h
    cases h with
    | same => rfl
    | capital hc hd =>
      have hsmall : ¬ d.isUpper = true := by
        rw [isUpper_iff] at hc ⊢
        omega
      rw [if_pos hc, if_neg hsmall, hd]
    | small hd hc =>
      have hsmall : ¬ c.isUpper = true := by
        rw [isUpper_iff] at hd ⊢
        omega
      rw [if_neg hsmall, if_pos hd, hc]

variable {a b : List Char}

theorem sameLetters_iff : sameLetters a b = true ↔ SameText a b := by
  rw [sameLetters, beq_iff_eq, ← List.forall₂_eq_eq_eq, List.forall₂_map_left_iff,
    List.forall₂_map_right_iff]
  simp only [toLower_eq_iff]

/-- Letter case makes no dot. -/
theorem SameLetter.dot_iff {c d : Char} (h : SameLetter c d) : c = '.' ↔ d = '.' := by
  have hdot : ('.' : Char).toNat = 46 := rfl
  rw [← Char.toNat_inj, ← Char.toNat_inj, hdot]
  cases h with
  | same => rfl
  | capital hc hd =>
    rw [isUpper_iff] at hc
    omega
  | small hd hc =>
    rw [isUpper_iff] at hd
    omega

/-- Texts that are the same up to letter case have their first dots in the same place. -/
theorem sameText_split (h : SameText a b) :
    SameText (a.takeWhile (· != '.')) (b.takeWhile (· != '.')) ∧
      SameText (a.dropWhile (· != '.')) (b.dropWhile (· != '.')) := by
  induction h with
  | nil => exact ⟨.nil, .nil⟩
  | @cons c d a b hletter htail ih =>
    by_cases hc : c = '.'
    · have hd := hletter.dot_iff.mp hc
      subst hc hd
      exact ⟨.nil, .cons hletter htail⟩
    · have hd : d ≠ '.' := fun hd => hc (hletter.dot_iff.mpr hd)
      have hc' : (c != '.') = true := bne_iff_ne.mpr hc
      have hd' : (d != '.') = true := bne_iff_ne.mpr hd
      rw [List.takeWhile_cons, List.takeWhile_cons, List.dropWhile_cons, List.dropWhile_cons,
        if_pos hc', if_pos hd', if_pos hc', if_pos hd']
      exact ⟨.cons hletter ih.1, ih.2⟩

/-! ### Blanks around a text -/

/-- A text without the blanks around it. -/
structure Trimmed (raw core : List Char) : Prop where
  blanks : ∃ front back, raw = front ++ core ++ back ∧
    (∀ c ∈ front, isBlank c = true) ∧ ∀ c ∈ back, isBlank c = true
  first : ∀ c ∈ core.head?, isBlank c = false
  last : ∀ c ∈ core.getLast?, isBlank c = false

variable {cs core front : List Char}

theorem trimLeft_of_first (h : ∀ c ∈ cs.head?, isBlank c = false) : trimLeft cs = cs := by
  cases cs with
  | nil => rfl
  | cons c cs => exact List.dropWhile_cons_of_neg (by simp [h c rfl])

theorem trimLeft_append (h : ∀ c ∈ front, isBlank c = true) :
    trimLeft (front ++ cs) = trimLeft cs :=
  List.dropWhile_append_of_pos h

theorem first_trimLeft (cs : List Char) : ∀ c ∈ (trimLeft cs).head?, isBlank c = false := by
  intro c hc
  have h := List.head?_dropWhile_not isBlank cs
  rw [trimLeft] at hc
  rw [Option.mem_def.mp hc] at h
  exact h

theorem exists_trimLeft (cs : List Char) :
    ∃ front, cs = front ++ trimLeft cs ∧ ∀ c ∈ front, isBlank c = true :=
  ⟨cs.takeWhile isBlank, (List.takeWhile_append_dropWhile).symm,
    fun _ hc => List.mem_takeWhile_imp hc⟩

/-- What is left when the blanks at both ends are dropped is the text between them. -/
theorem trimmed_iff {raw : List Char} : Trimmed raw core ↔ trimChars raw = core := by
  constructor
  · rintro ⟨⟨front, back, rfl, hfront, hback⟩, hfirst, hlast⟩
    have hback' : ∀ c ∈ back.reverse, isBlank c = true := fun c hc =>
      hback c (List.mem_reverse.mp hc)
    cases core with
    | nil =>
      -- Everything is blank, and nothing is left for the way back.
      have hnone : trimLeft back = [] := List.dropWhile_eq_nil_iff.mpr hback
      rw [trimChars, List.append_assoc, trimLeft_append hfront, List.nil_append, hnone]
      rfl
    | cons c core =>
      -- From the front and from the back, the first character that is not blank stops it.
      have hleft : trimLeft (c :: core ++ back) = c :: core ++ back :=
        trimLeft_of_first fun d hd => hfirst d hd
      have hright : trimLeft (c :: core).reverse = (c :: core).reverse :=
        trimLeft_of_first fun d hd => hlast d (List.head?_reverse ▸ hd)
      rw [trimChars, List.append_assoc, trimLeft_append hfront, hleft, List.reverse_append,
        trimLeft_append hback', hright, List.reverse_reverse]
  · rintro rfl
    obtain ⟨front, hfront, hfrontBlank⟩ := exists_trimLeft raw
    obtain ⟨back, hback, hbackBlank⟩ := exists_trimLeft (trimLeft raw).reverse
    have hmiddle : trimLeft raw = trimChars raw ++ back.reverse := by
      rw [trimChars, ← List.reverse_append, ← hback, List.reverse_reverse]
    constructor
    case blanks =>
      refine ⟨front, back.reverse, ?_, hfrontBlank, fun c hc => ?_⟩
      · rw [List.append_assoc, ← hmiddle]
        exact hfront
      · exact hbackBlank c (List.mem_reverse.mp hc)
    case first =>
      intro c hc
      refine first_trimLeft raw c ?_
      rw [hmiddle, List.head?_append, Option.mem_def.mp hc]
      rfl
    case last =>
      -- The last character is where the way back has stopped.
      intro c hc
      rw [trimChars, List.getLast?_reverse] at hc
      exact first_trimLeft _ c hc

end Text

open Text

namespace ExecutionStatus

variable {x y : ExecutionStatus} {s : String} {cs : List Char}

/-! ### Names -/

/-- The name of a status after the qualifier and a dot. -/
def qualifiedName (x : ExecutionStatus) : String := "ExecutionStatus." ++ x.name

/-- A text names a status: without the blanks around it, it is the name of the status or its
    qualified name, up to the case of ASCII letters. -/
def Names (x : ExecutionStatus) (s : String) : Prop :=
  ∃ core, Trimmed s.toList core ∧
    (SameText x.name.toList core ∨ SameText x.qualifiedName.toList core)

/-- The names are different, whatever the letter case. -/
theorem name_unique (hx : sameLetters x.name.toList cs = true)
    (hy : sameLetters y.name.toList cs = true) : x = y := by
  have hxy : sameLetters x.name.toList y.name.toList = true := by
    rw [sameLetters, beq_iff_eq] at *
    rw [hx, hy]
  revert hxy
  cases x <;> cases y <;> decide

theorem sameLetters_of_ofLetters? (h : ofLetters? cs = some x) :
    sameLetters x.name.toList cs = true := by
  rw [ofLetters?, List.find?_eq_some_iff_append] at h
  exact h.1

theorem ofLetters?_eq_some_iff : ofLetters? cs = some x ↔ SameText x.name.toList cs := by
  rw [← sameLetters_iff]
  constructor
  · exact sameLetters_of_ofLetters?
  · intro h
    cases hfind : ofLetters? cs with
    | none => exact absurd h (List.find?_eq_none.mp hfind x (mem_all x))
    | some y => rw [name_unique (sameLetters_of_ofLetters? hfind) h]

/-! ### The first dot -/

theorem dropWhile_name (x : ExecutionStatus) : x.name.toList.dropWhile (· != '.') = [] := by
  cases x <;> rfl

theorem takeWhile_qualifiedName (x : ExecutionStatus) :
    x.qualifiedName.toList.takeWhile (· != '.') = qualifier := by
  cases x <;> rfl

theorem dropWhile_qualifiedName (x : ExecutionStatus) :
    x.qualifiedName.toList.dropWhile (· != '.') = '.' :: x.name.toList := by
  cases x <;> rfl

/-- The characters that are read as a status are its name or its qualified name. -/
theorem ofChars?_eq_some_iff :
    ofChars? cs = some x ↔ SameText x.name.toList cs ∨ SameText x.qualifiedName.toList cs := by
  unfold ofChars?
  constructor
  · intro h
    -- Without a dot there can only be a bare name.
    split at h
    case h_1 => exact .inl (ofLetters?_eq_some_iff.mp h)
    case h_2 dot name hdrop =>
      have hdot : dot = '.' := by
        have hnot := List.head?_dropWhile_not (· != '.') cs
        rw [hdrop] at hnot
        simpa using hnot
      subst hdot
      split at h
      case isFalse => cases h
      case isTrue hqualifier =>
        rw [sameLetters_comm, sameLetters_iff] at hqualifier
        have hname : SameText ('.' :: x.name.toList) ('.' :: name) :=
          .cons (.same '.') (ofLetters?_eq_some_iff.mp h)
        right
        -- Both texts are put together again at their first dots.
        rw [← List.takeWhile_append_dropWhile (p := (· != '.')) (l := x.qualifiedName.toList),
          ← List.takeWhile_append_dropWhile (p := (· != '.')) (l := cs),
          takeWhile_qualifiedName, dropWhile_qualifiedName, hdrop]
        exact List.rel_append hqualifier hname
  · rintro (h | h)
    · -- A name has no dot, and so this text has none either.
      have hdrop := (sameText_split h).2
      rw [dropWhile_name] at hdrop
      rw [List.forall₂_nil_left_iff.mp hdrop]
      exact ofLetters?_eq_some_iff.mpr h
    · obtain ⟨htake, hdrop⟩ := sameText_split h
      rw [takeWhile_qualifiedName, ← sameLetters_iff, sameLetters_comm] at htake
      rw [dropWhile_qualifiedName] at hdrop
      obtain ⟨dot, name, -, hname, hcs⟩ := List.forall₂_cons_left_iff.mp hdrop
      rw [hcs]
      exact (if_pos htake).trans (ofLetters?_eq_some_iff.mpr hname)

theorem names_iff : x.Names s ↔ ofChars? (trimChars s.toList) = some x := by
  rw [ofChars?_eq_some_iff, Names]
  simp only [trimmed_iff, exists_eq_left']

theorem parse_eq_ok_iff : parse s = .ok x ↔ x.Names s := by
  rw [names_iff, parse]
  cases ofChars? (trimChars s.toList) <;> simp

theorem parse_eq_error_iff {e : InvalidStatusValue} :
    parse s = .error e ↔ e = ⟨s⟩ ∧ ∀ x : ExecutionStatus, ¬ x.Names s := by
  simp only [names_iff]
  rw [parse]
  cases ofChars? (trimChars s.toList) with
  | none => simp [eq_comm]
  | some x => simp

end ExecutionStatus

namespace Tracker

/-- A text is read as a status exactly if it names it, and as none, with an error that gives the
    text back, exactly if it names none. An update with a text that names no status fails and
    makes no request; with any other text it is the update with the status that it names. -/
theorem parse_accepts_names (s : String) :
    (∀ x : ExecutionStatus, ExecutionStatus.parse s = .ok x ↔ x.Names s) ∧
    (∀ e, ExecutionStatus.parse s = .error e ↔ e = ⟨s⟩ ∧ ∀ x : ExecutionStatus, ¬ x.Names s) ∧
    ∀ (t : Tracker) (workflowId executionId : String) {σ : Type} (serve : Program.Services σ)
      (world : σ),
      ((∀ x : ExecutionStatus, ¬ x.Names s) ∧
        (t.updateStatus workflowId executionId (.text s)).run serve world =
          (.ok (.error (.invalidStatus ⟨s⟩)), world)) ∨
      ∃ x : ExecutionStatus, x.Names s ∧
        (t.updateStatus workflowId executionId (.text s)).run serve world =
          (t.updateStatus workflowId executionId (.canonical x)).run serve world := by
  refine ⟨fun x => ExecutionStatus.parse_eq_ok_iff, fun e => ExecutionStatus.parse_eq_error_iff,
    fun t workflowId executionId σ serve world => ?_⟩
  cases hparse : ExecutionStatus.parse s with
  | ok x =>
    refine .inr ⟨x, ExecutionStatus.parse_eq_ok_iff.mp hparse, ?_⟩
    simp only [updateStatus, StatusValue.resolve, hparse]
  | error e =>
    obtain ⟨rfl, hnone⟩ := ExecutionStatus.parse_eq_error_iff.mp hparse
    refine .inl ⟨hnone, ?_⟩
    simp only [updateStatus, StatusValue.resolve, hparse]
    rfl

/-- Blanks around a text do not matter, blanks inside it do. -/
example : ExecutionStatus.parse " executionstatus.Ready\n" = .ok .ready ∧
    ExecutionStatus.parse "ExecutionStatus. READY" = .error ⟨"ExecutionStatus. READY"⟩ :=
  ⟨rfl, rfl⟩

end Tracker

end ExecutionControl
