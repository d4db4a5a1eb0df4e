import ExecutionControl.Json.Reader

/-! # Skipping JSON values

    A value that nobody asked for is only checked for its form. Its nesting is not
    limited, its numbers may be out of range and its surrogates need no partner.
-/

namespace ExecutionControl.Json

open Text

/-! ### Strings and numbers -/

/-- Skip what follows a backslash. -/
def skipEscape : Reader Unit := fun cs =>
  match cs with
  | [] => .error .ended
  | 'u' :: rest => (readHex rest).map fun p => ((), p.2)
  | c :: rest => if "\"\\/bfnrt".toList.contains c then .ok ((), rest) else .error .malformed

/-- Skip a string after its opening quote. -/
def skipString : Fuel → Reader Unit
  | [] => fail .ended
  | _ :: fuel => fun cs =>
    match cs with
    | [] => .error .ended
    | '"' :: rest => .ok ((), rest)
    | '\\' :: rest => do
      let (_, rest) ← skipEscape rest
      skipString fuel rest
    | c :: rest => if c.toNat < 32 then .error .malformed else skipString fuel rest

/-- Skip digits of which there must be at least one. -/
def skipDigits : Reader Unit := fun cs =>
  let digits := leadingDigits cs
  if digits.isEmpty then .error .malformed else .ok ((), cs.drop digits.length)

/-- Skip the exponent of a number, after its `e`. -/
def skipExponent : Reader Unit := fun cs =>
  match cs with
  | '+' :: rest => skipDigits rest
  | '-' :: rest => skipDigits rest
  | rest => skipDigits rest

/-- Skip the exponent of a number, if it has one. -/
def skipScale : Reader Unit := fun cs =>
  match cs with
  | 'e' :: rest => skipExponent rest
  | 'E' :: rest => skipExponent rest
  | rest => .ok ((), rest)

/-- Skip a number after its sign. A number cut short is malformed here. -/
def skipNumber : Reader Unit := do
  match ← peekHere with
  | some '0' => do
    skipOne
    match ← peekHere with
    | some c => if (digitValue? c).isSome then fail .malformed else pure ()
    | none => pure ()
  | _ => skipDigits
  match ← peekHere with
  | some '.' => do
    skipOne
    skipDigits
    skipScale
  | _ => skipScale

/-! ### Values -/

/-- The kinds of nesting that a skipped value is inside of. -/
inductive Frame where
  | array
  | object
  deriving DecidableEq, Repr

/-- Skip a value that is no array or object, or open one. -/
def skipScalar : Reader (Option Frame) := do
  match ← peek with
  | none => fail .ended
  | some 'n' => do
    readWord "null".toList
    pure none
  | some 't' => do
    readWord "true".toList
    pure none
  | some 'f' => do
    readWord "false".toList
    pure none
  | some '-' => do
    skipOne
    skipNumber
    pure none
  | some '"' => do
    skipOne
    withFuel skipString
    pure none
  | some '[' => do
    skipOne
    pure (some .array)
  | some '\x7b' => do
    skipOne
    pure (some .object)
  | some c =>
    if (digitValue? c).isSome then do
      skipNumber
      pure none
    else fail .malformed

/-- The bracket that closes a frame. -/
def Frame.closer : Frame → Char
  | .array => ']'
  | .object => '\x7d'

/-- Close as many frames as end here. `after` says that the innermost one already
    holds a value. Gives back the frames still open, in which a value comes next. -/
def closeFrames : Bool → List Frame → Reader (List Frame)
  | _, [] => pure []
  | after, frame :: outer => do
    match ← peek with
    | none => fail .ended
    | some c =>
      if c = ',' ∧ after then do
        skipOne
        pure (frame :: outer)
      else if c = frame.closer then do
        skipOne
        closeFrames true outer
      else if after then fail .malformed
      else pure (frame :: outer)

/-- Skip a key with its colon. -/
def skipKey : Reader Unit := do
  match ← peek with
  | none => fail .ended
  | some '"' => do
    skipOne
    withFuel skipString
    readColon
  | some _ => fail .malformed

/-- Skip a value inside the given frames, and then what is left of them. -/
def skipWithin : Fuel → List Frame → Reader Unit
  | [], _ => fail .ended
  | _ :: fuel, frames => do
    let opened ← skipScalar
    let frames ← match opened with
      | some frame => closeFrames false (frame :: frames)
      | none => closeFrames true frames
    match frames with
    | [] => pure ()
    | .array :: _ => skipWithin fuel frames
    | .object :: _ => do
      skipKey
      skipWithin fuel frames

/-- Skip a value. -/
def skipValue : Reader Unit := withFuel fun fuel => skipWithin fuel []

end ExecutionControl.Json
