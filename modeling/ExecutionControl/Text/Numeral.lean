/-! # Decimal numerals

    How a number is read from text: an optional sign, then ASCII digits and
    nothing else, with a value inside the wanted range. The digits are taken from
    left to right, so that a numeral which leaves the range before its first bad
    character is out of range, and otherwise the bad character is reported.
-/

namespace ExecutionControl.Text

/-- Why a text is no numeral of the wanted range. -/
inductive NumeralError where
  /-- The text is empty. -/
  | empty
  /-- Something other than an ASCII digit stands where a digit must stand. -/
  | invalidDigit
  /-- The value is above the range. -/
  | tooLarge
  /-- The value is below the range. -/
  | tooSmall
  deriving DecidableEq, Repr

/-- The wording of a numeral error. -/
def NumeralError.message : NumeralError → String
  | .empty => "cannot parse integer from empty string"
  | .invalidDigit => "invalid digit found in string"
  | .tooLarge => "number too large to fit in target type"
  | .tooSmall => "number too small to fit in target type"

/-- The value of an ASCII digit. -/
def digitValue? (c : Char) : Option Nat :=
  if '0' ≤ c ∧ c ≤ '9' then some (c.toNat - '0'.toNat) else none

/-- Continue a numeral whose digits so far have the value `value`; the result must
    stay at or below `limit`, and `excess` says what is wrong when it does not. -/
def readDigits (limit : Nat) (excess : NumeralError) (value : Nat) :
    List Char → Except NumeralError Nat
  | [] => .ok value
  | c :: rest =>
    match digitValue? c with
    | none => .error .invalidDigit
    | some d =>
      if value * 10 + d ≤ limit then readDigits limit excess (value * 10 + d) rest
      else .error excess

/-- Read digits of which there must be at least one. -/
def readMagnitude (limit : Nat) (excess : NumeralError) : List Char → Except NumeralError Nat
  | [] => .error .invalidDigit
  | cs => readDigits limit excess 0 cs

/-- Read a natural number at most `limit`. A leading `+` is allowed, a `-` is not,
    not even before a zero. -/
def readNat (limit : Nat) (s : String) : Except NumeralError Nat :=
  match s.toList with
  | [] => .error .empty
  | '+' :: cs => readMagnitude limit .tooLarge cs
  | cs => readMagnitude limit .tooLarge cs

/-- Read an integer between `-(limit + 1)` and `limit`, with an optional sign. -/
def readInt (limit : Nat) (s : String) : Except NumeralError Int :=
  match s.toList with
  | [] => .error .empty
  | '-' :: cs => (readMagnitude (limit + 1) .tooSmall cs).map fun n => -(n : Int)
  | '+' :: cs => (readMagnitude limit .tooLarge cs).map fun n => (n : Int)
  | cs => (readMagnitude limit .tooLarge cs).map fun n => (n : Int)

/-- The largest unsigned number of 32 bits. -/
def maxWord32 : Nat := Nat.pow 2 32 - 1

/-- The largest unsigned number of 64 bits. -/
def maxWord64 : Nat := Nat.pow 2 64 - 1

/-- The largest signed number of 64 bits. -/
def maxInt64 : Nat := Nat.pow 2 63 - 1

end ExecutionControl.Text
