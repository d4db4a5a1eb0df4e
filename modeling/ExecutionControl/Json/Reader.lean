import ExecutionControl.Json.Value
import ExecutionControl.Text.Numeral

/-! # Reading JSON

    A reader takes the characters that are left and gives back a value and the rest,
    or the first fault that it meets from left to right. Arrays and objects may be
    nested only to a certain depth.
-/

namespace ExecutionControl.Json

open Text

/-- Why a text is not what was asked for. -/
inductive Fault where
  /-- The text ends early. -/
  | ended
  /-- The text is not JSON. -/
  | malformed
  /-- The text is JSON of the wrong shape. -/
  | mismatched
  deriving DecidableEq, Repr

/-- A reader of the characters that are left. -/
abbrev Reader (α : Type) := StateT (List Char) (Except Fault) α

/-- Stop with a fault. -/
def fail {α : Type} (f : Fault) : Reader α := fun _ => .error f

/-- The characters that may stand between any two parts. -/
def isGap (c : Char) : Bool := c == ' ' || c == '\n' || c == '\t' || c == '\r'

/-- The next character after any gap, which is left in place; none at the end. -/
def peek : Reader (Option Char) := fun cs =>
  let rest := cs.dropWhile isGap
  .ok (rest.head?, rest)

/-- The next character itself, left in place; none at the end. -/
def peekHere : Reader (Option Char) := fun cs => .ok (cs.head?, cs)

/-- Drop one character. -/
def skipOne : Reader Unit := fun cs => .ok ((), cs.drop 1)

/-- Read the letters of a word. -/
def readWord : List Char → Reader Unit
  | [] => pure ()
  | c :: word => fun cs =>
    match cs with
    | [] => .error .ended
    | d :: rest => if d = c then readWord word rest else .error .malformed

/-! ### Fuel -/

/-- What a reader that repeats itself spends one item of with each step. It is a list, so
    that the characters that are left can serve as fuel without being counted. -/
abbrev Fuel := List Char

/-- Run a reader that takes at least one character with each step but the last: the
    characters that are left, and one more, are fuel enough. -/
def withFuel {α : Type} (r : Fuel → Reader α) : Reader α := fun cs => r (' ' :: cs) cs

/-! ### Strings -/

/-- The value of a hexadecimal digit of either case. -/
def hexValue? (c : Char) : Option Nat :=
  if '0' ≤ c ∧ c ≤ '9' then some (c.toNat - 48)
  else if 'a' ≤ c ∧ c ≤ 'f' then some (c.toNat - 87)
  else if 'A' ≤ c ∧ c ≤ 'F' then some (c.toNat - 55)
  else none

/-- The number of bytes of some characters in UTF-8. -/
def byteLength (cs : List Char) : Nat := cs.foldl (fun n c => n + c.utf8Size) 0

/-- Four hexadecimal digits. Where fewer than four bytes are left, the text ends
    early; otherwise anything else is malformed. -/
def readHex : Reader Nat := fun cs =>
  if byteLength (cs.take 4) < 4 then .error .ended
  else
    match cs with
    | a :: b :: c :: d :: rest =>
      match hexValue? a, hexValue? b, hexValue? c, hexValue? d with
      | some a, some b, some c, some d => .ok (((a * 16 + b) * 16 + c) * 16 + d, rest)
      | _, _, _, _ => .error .malformed
    | _ => .error .malformed

/-- The character of a `\u` escape whose digits come next. A high surrogate must be
    followed by the escape of a low one, and a low one cannot come first. -/
def readCodePoint : Reader Char := do
  let n ← readHex
  if 0xDC00 ≤ n ∧ n ≤ 0xDFFF then fail .malformed
  else if n < 0xD800 ∨ n > 0xDBFF then pure (Char.ofNat n)
  else
    readWord ['\\', 'u']
    let low ← readHex
    if low < 0xDC00 ∨ low > 0xDFFF then fail .malformed
    else pure (Char.ofNat ((n - 0xD800) * 1024 + (low - 0xDC00) + 0x10000))

/-- The character of an escape, after its backslash. -/
def readEscape : Reader Char := fun cs =>
  match cs with
  | [] => .error .ended
  | '"' :: rest => .ok ('"', rest)
  | '\\' :: rest => .ok ('\\', rest)
  | '/' :: rest => .ok ('/', rest)
  | 'b' :: rest => .ok ('\x08', rest)
  | 'f' :: rest => .ok ('\x0c', rest)
  | 'n' :: rest => .ok ('\n', rest)
  | 'r' :: rest => .ok ('\r', rest)
  | 't' :: rest => .ok ('\t', rest)
  | 'u' :: rest => readCodePoint rest
  | _ :: _ => .error .malformed

/-- The next character of a string, or none at its closing quote. -/
def readStringChar : Reader (Option Char) := fun cs =>
  match cs with
  | [] => .error .ended
  | '"' :: rest => .ok (none, rest)
  | '\\' :: rest => (readEscape rest).map fun p => (some p.1, p.2)
  | c :: rest => if c.toNat < 32 then .error .malformed else .ok (some c, rest)

/-- The characters of a string up to its closing quote, which is dropped. -/
def readStringBody : Fuel → Reader (List Char)
  | [] => fail .ended
  | _ :: fuel => do
    match ← readStringChar with
    | none => pure []
    | some c => do
      let body ← readStringBody fuel
      pure (c :: body)

/-- A string, after its opening quote. -/
def readStringRest : Reader String := String.ofList <$> withFuel readStringBody

/-! ### Numbers -/

/-- Add digits to a significand while it fits in 64 bits. Gives back the significand,
    the number of digits added, and the rest. -/
def keepDigits (significand kept : Nat) : List Char → Nat × Nat × List Char
  | [] => (significand, kept, [])
  | c :: rest =>
    match digitValue? c with
    | none => (significand, kept, c :: rest)
    | some d =>
      if significand * 10 + d ≤ maxWord64 then keepDigits (significand * 10 + d) (kept + 1) rest
      else (significand, kept, c :: rest)

/-- Whether a digit comes next. -/
def startsWithDigit : List Char → Bool
  | [] => false
  | c :: _ => (digitValue? c).isSome

/-- The digits at the front. -/
def leadingDigits (cs : List Char) : List Char := cs.takeWhile fun c => (digitValue? c).isSome

/-- `significand` divided by 10^308 until the exponent reaches -308 or the number is
    zero; gives back the number and the exponent that is left. -/
def scaleDown (x : Float) (exponent : Int) : Nat → Float × Int
  | 0 => (x, exponent)
  | fuel + 1 =>
    if exponent < -308 ∧ x != 0.0 then
      scaleDown (x / Float.ofScientific 1 false 308) (exponent + 308) fuel
    else (x, exponent)

/-- `significand * 10 ^ exponent`: the significand is rounded first, and multiplied or
    divided by a rounded power of ten. A number out of range is malformed. -/
def scale (negative : Bool) (significand : Nat) (exponent : Int) : Except Fault Float :=
  let x := Float.ofNat significand
  let signed (y : Float) : Float := if negative then -y else y
  let (y, e) := scaleDown x exponent 4
  if e < -308 then .ok (signed y)
  else if e < 0 then .ok (signed (y / Float.ofScientific 1 false e.natAbs))
  else if e ≤ 308 then
    let z := y * Float.ofScientific 1 false e.natAbs
    if z.isInf then .error .malformed else .ok (signed z)
  else if y == 0.0 then .ok (signed y)
  else .error .malformed

/-- The value of the digits of an exponent, if it is below 2^31. -/
def exponentValue? (digits : List Char) : Option Nat :=
  let n := digits.foldl (fun n c => min (n * 10 + (c.toNat - 48)) (Nat.pow 2 31)) 0
  if n < Nat.pow 2 31 then some n else none

/-- The exponent part of a number, after its `e`. An exponent out of range makes the
    number zero, or malformed if the exponent is positive and the significand is not
    zero. -/
def readExponent (negative : Bool) (significand : Nat) (exponent : Int) : Reader Number :=
  fun cs =>
    let (down, cs) :=
      match cs with
      | '+' :: rest => (false, rest)
      | '-' :: rest => (true, rest)
      | rest => (false, rest)
    match cs with
    | [] => .error .ended
    | _ :: _ =>
      let digits := leadingDigits cs
      if digits.isEmpty then .error .malformed
      else
        match exponentValue? digits with
        | some e =>
          let e : Int := e
          (scale negative significand (if down then exponent - e else exponent + e)).map
            fun x => (.float x, cs.drop digits.length)
        | none =>
          if significand ≠ 0 ∧ down = false then .error .malformed
          else .ok (.float (if negative then -0.0 else 0.0), cs.drop digits.length)

/-- The rest of a number from its exponent on, if it has one. -/
def readScale (negative : Bool) (significand : Nat) (exponent : Int) : Reader Number := fun cs =>
  match cs with
  | 'e' :: rest => readExponent negative significand exponent rest
  | 'E' :: rest => readExponent negative significand exponent rest
  | rest => (scale negative significand exponent).map fun x => (.float x, rest)

/-- The fraction of a number, after its point. Digits that no longer fit in the
    significand are dropped. -/
def readFraction (negative : Bool) (significand : Nat) (exponent : Int) : Reader Number :=
  fun cs =>
    let (significand, kept, rest) := keepDigits significand 0 cs
    if kept = 0 ∧ !startsWithDigit rest then
      if rest.isEmpty then .error .ended else .error .malformed
    else readScale negative significand (exponent - kept) (rest.drop (leadingDigits rest).length)

/-- The number of a whole numeral. Minus zero and numbers below -2^63 are
    floating-point. -/
def wholeNumber (negative : Bool) (significand : Nat) : Number :=
  if !negative then .int significand
  else if 1 ≤ significand ∧ significand ≤ Nat.pow 2 63 then .int (-(significand : Int))
  else .float (-Float.ofNat significand)

/-- What follows the whole part of a number: a fraction, an exponent, or nothing. The
    number is floating-point if digits of its whole part were dropped. -/
def readNumberTail (negative : Bool) (significand dropped : Nat) : Reader Number := fun cs =>
  match cs with
  | '.' :: rest => readFraction negative significand dropped rest
  | 'e' :: rest => readExponent negative significand dropped rest
  | 'E' :: rest => readExponent negative significand dropped rest
  | rest =>
    if dropped = 0 then .ok (wholeNumber negative significand, rest)
    else (scale negative significand dropped).map fun x => (.float x, rest)

/-- A number after its sign. A zero at the front must stand alone; digits that no
    longer fit in the significand count in the exponent. -/
def readNumber (negative : Bool) : Reader Number := fun cs =>
  match cs with
  | [] => .error .ended
  | '0' :: rest =>
    if startsWithDigit rest then .error .malformed else readNumberTail negative 0 0 rest
  | c :: rest =>
    if startsWithDigit (c :: rest) then
      let (significand, _, rest) := keepDigits 0 0 (c :: rest)
      let dropped := (leadingDigits rest).length
      readNumberTail negative significand dropped (rest.drop dropped)
    else .error .malformed

/-! ### Arrays and objects -/

/-- Whether another item follows in an array; drops the comma before it. -/
def nextItem (first : Bool) : Reader Bool := do
  match ← peek with
  | none => fail .ended
  | some ']' => pure false
  | some c =>
    if first then pure true
    else if c = ',' then do
      skipOne
      match ← peek with
      | none => fail .ended
      | some ']' => fail .malformed
      | some _ => pure true
    else fail .malformed

/-- The key of the next field of an object; none where the object ends. -/
def nextKey (first : Bool) : Reader (Option String) := do
  let key : Reader (Option String) := do
    match ← peek with
    | none => fail .ended
    | some '"' => do
      skipOne
      some <$> readStringRest
    | some _ => fail .malformed
  match ← peek with
  | none => fail .ended
  | some '\x7d' => pure none
  | some c =>
    if first then key
    else if c = ',' then do
      skipOne
      key
    else fail .malformed

/-- The colon between a key and its value. -/
def readColon : Reader Unit := do
  match ← peek with
  | none => fail .ended
  | some ':' => skipOne
  | some _ => fail .malformed

/-- The end of an array. -/
def endArray : Reader Unit := do
  match ← peek with
  | none => fail .ended
  | some ']' => skipOne
  | some _ => fail .malformed

/-- The end of an object. -/
def endObject : Reader Unit := do
  match ← peek with
  | none => fail .ended
  | some '\x7d' => skipOne
  | some _ => fail .malformed

/-- The items of an array up to its closing bracket. -/
def readItems (item : Reader Json) : Fuel → Bool → Reader (List Json)
  | [], _ => fail .ended
  | _ :: fuel, first => do
    if ← nextItem first then do
      let value ← item
      let rest ← readItems item fuel false
      pure (value :: rest)
    else pure []

/-- The fields of an object up to its closing brace, added to those already read. -/
def readFields (value : Reader Json) : Fuel → Bool → List (String × Json) →
    Reader (List (String × Json))
  | [], _, _ => fail .ended
  | _ :: fuel, first, fields => do
    match ← nextKey first with
    | none => pure fields
    | some key => do
      readColon
      let v ← value
      readFields value fuel false (insertField key v fields)

/-! ### Values -/

/-- A value whose items and fields are read by `nested`; without it, arrays and objects
    are nested too deeply. -/
def readValueWith (nested : Option (Reader Json)) : Reader Json := do
  match ← peek with
  | none => fail .ended
  | some 'n' => do
    readWord "null".toList
    pure .null
  | some 't' => do
    readWord "true".toList
    pure (.bool true)
  | some 'f' => do
    readWord "false".toList
    pure (.bool false)
  | some '-' => do
    skipOne
    let n ← readNumber true
    pure (.num n)
  | some '"' => do
    skipOne
    let s ← readStringRest
    pure (.str s)
  | some '[' =>
    match nested with
    | none => fail .malformed
    | some value => do
      skipOne
      let items ← withFuel fun fuel => readItems value fuel true
      endArray
      pure (.arr items)
  | some '\x7b' =>
    match nested with
    | none => fail .malformed
    | some value => do
      skipOne
      let fields ← withFuel fun fuel => readFields value fuel true []
      endObject
      pure (.obj fields)
  | some c =>
    if (digitValue? c).isSome then do
      let n ← readNumber false
      pure (.num n)
    else fail .malformed

/-- A value with arrays and objects nested to the given depth. -/
def readValue : Nat → Reader Json
  | 0 => readValueWith none
  | depth + 1 => readValueWith (some (readValue depth))

/-- How deeply arrays and objects may be nested in a text. -/
def maxDepth : Nat := 127

/-- Read a whole text; nothing but gaps may follow the value. -/
def readWhole {α : Type} (r : Reader α) (s : String) : Except Fault α := do
  let (a, rest) ← r s.toList
  if (rest.dropWhile isGap).isEmpty then .ok a else .error .malformed

/-- Read a whole text as a value. -/
def parse (s : String) : Except Fault Json := readWhole (readValue maxDepth) s

end ExecutionControl.Json
