import ExecutionControl.Duration
import ExecutionControl.Json.Skip
import ExecutionControl.Timestamp.Reader

/-! # Reading records from JSON

    A record is an object with known fields, or an array of its fields in order. A
    field may be given only once; fields that are not known are skipped, unless the
    record is closed. A value of the wrong shape is read far enough to tell whether
    it is JSON at all.
-/

namespace ExecutionControl.Json

open Text

/-! ### Scalars -/

/-- What comes next has the wrong shape. A scalar is read first, so that a malformed
    one is reported as such. -/
def wrongShape {α : Type} : Reader α := do
  match ← peekHere with
  | some '[' => fail .mismatched
  | some '\x7b' => fail .mismatched
  | none => fail .malformed
  | some _ => do
    let _ ← readValueWith none
    fail .mismatched

/-- A string. -/
def readText : Reader String := do
  match ← peek with
  | none => fail .ended
  | some '"' => do
    skipOne
    readStringRest
  | some _ => wrongShape

/-- A number. -/
def readAnyNumber : Reader Number := do
  match ← peek with
  | none => fail .ended
  | some '-' => do
    skipOne
    readNumber true
  | some c => if (digitValue? c).isSome then readNumber false else wrongShape

/-- A natural number at most `limit`. -/
def readNatUpTo (limit : Nat) : Reader Nat := do
  match ← readAnyNumber with
  | .int n => if 0 ≤ n ∧ n ≤ limit then pure n.toNat else fail .mismatched
  | .float _ => fail .mismatched

/-- A number of any kind. -/
def readFloat : Reader Float := do
  match ← readAnyNumber with
  | .int n => pure (Float.ofInt n)
  | .float x => pure x

/-- A truth value. -/
def readBool : Reader Bool := do
  match ← peek with
  | none => fail .ended
  | some 't' => do
    readWord "true".toList
    pure true
  | some 'f' => do
    readWord "false".toList
    pure false
  | some _ => wrongShape

/-- A value or `null`. -/
def readOption {α : Type} (r : Reader α) : Reader (Option α) := do
  match ← peek with
  | some 'n' => do
    readWord "null".toList
    pure none
  | _ => some <$> r

/-- A value of an enumeration: its name, or an object of its name and `null`. -/
def readName {α : Type} (ofName? : String → Option α) : Reader α := do
  let name : Reader α := do
    let s ← readText
    match ofName? s with
    | some a => pure a
    | none => fail .mismatched
  match ← peek with
  | none => fail .ended
  | some '"' => name
  | some '\x7b' => do
    skipOne
    let a ← name
    readColon
    match ← peek with
    | none => fail .ended
    | some 'n' => readWord "null".toList
    | some _ => wrongShape
    endObject
    pure a
  | some _ => fail .malformed

/-- A point in time, written in the lenient form of RFC 3339. -/
def readTimestamp : Reader Timestamp := do
  match Timestamp.readLenient (← readText) with
  | some t => pure t
  | none => fail .mismatched

/-! ### Records -/

/-- A field of a record that is read into a draft `σ`. -/
structure Field (σ : Type) where
  /-- The name of the field. -/
  name : String
  /-- Whether the draft has the field already. -/
  given : σ → Bool
  /-- Read the value of the field into the draft. -/
  read : σ → Reader σ
  /-- Whether an array may end before this field. -/
  optional : Bool := false

/-- The fields of an object, read into a draft. -/
def readNamed {σ : Type} (fields : List (Field σ)) (closed : Bool) : Fuel → Bool → σ → Reader σ
  | [], _, _ => fail .ended
  | _ :: fuel, first, draft => do
    match ← nextKey first with
    | none => pure draft
    | some key =>
      match fields.find? fun f => f.name == key with
      | some f =>
        if f.given draft then fail .mismatched
        else do
          readColon
          let draft ← f.read draft
          readNamed fields closed fuel false draft
      | none =>
        if closed then fail .mismatched
        else do
          readColon
          skipValue
          readNamed fields closed fuel false draft

/-- The fields of an array, read into a draft in order. -/
def readInOrder {σ : Type} : List (Field σ) → Bool → σ → Reader σ
  | [], _, draft => pure draft
  | f :: rest, first, draft => do
    if ← nextItem first then do
      let draft ← f.read draft
      readInOrder rest false draft
    else if f.optional then readInOrder rest first draft
    else fail .mismatched

/-- A record within `depth` further levels of nesting. The draft is finished before
    the closing bracket is looked at; a draft that lacks a field has the wrong shape. -/
def readRecord {σ α : Type} (fields : List (Field σ)) (closed : Bool) (empty : σ)
    (finish : σ → Option α) (depth : Nat) : Reader α := do
  let complete (draft : σ) : Reader α := (finish draft).elim (fail .mismatched) pure
  match ← peek with
  | none => fail .ended
  | some '[' =>
    if depth = 0 then fail .malformed
    else do
      skipOne
      let draft ← readInOrder fields true empty
      let a ← complete draft
      endArray
      pure a
  | some '\x7b' =>
    if depth = 0 then fail .malformed
    else do
      skipOne
      let draft ← withFuel fun fuel => readNamed fields closed fuel true empty
      let a ← complete draft
      endObject
      pure a
  | some _ => wrongShape

/-- The fields of a duration that have been read: seconds and nanoseconds. -/
abbrev DurationDraft := Option Nat × Option Nat

/-- A duration: whole seconds, and nanoseconds, of which 10^9 and more carry over. -/
def readDuration (depth : Nat) : Reader Duration :=
  readRecord (σ := DurationDraft)
    [{ name := "secs", given := fun d => d.1.isSome,
       read := fun d => (fun n => (some n, d.2)) <$> readNatUpTo maxWord64 },
     { name := "nanos", given := fun d => d.2.isSome,
       read := fun d => (fun n => (d.1, some n)) <$> readNatUpTo maxWord32 }]
    true (none, none)
    (fun d => do Duration.ofNanos? ((← d.1) * 1000000000 + (← d.2))) depth

end ExecutionControl.Json
