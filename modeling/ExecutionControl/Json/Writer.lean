import ExecutionControl.Json.Value
import ExecutionControl.Decimal.Shortest

/-! # Writing JSON

    The compact text of a value, and the text laid out over lines with two spaces
    for each level. Only what must be escaped in a string is escaped. A
    floating-point number is the shortest decimal that reads back, written without
    an exponent when its decimal point falls at most 16 places to the right and 5 to
    the left of its first digit. An exponent has a sign.
-/

namespace ExecutionControl.Json

open Decimal

/-! ### Strings -/

/-- A lower case hexadecimal digit. -/
def hexDigit (n : Nat) : Char := if n < 10 then Char.ofNat (48 + n) else Char.ofNat (87 + n)

/-- A character inside a string. Controls without a short escape are written by their
    code point. -/
def stringChar (c : Char) : List Char :=
  if c = '"' then ['\\', '"']
  else if c = '\\' then ['\\', '\\']
  else if c = '\x08' then ['\\', 'b']
  else if c = '\t' then ['\\', 't']
  else if c = '\n' then ['\\', 'n']
  else if c = '\x0c' then ['\\', 'f']
  else if c = '\r' then ['\\', 'r']
  else if c.toNat < 32 then
    ['\\', 'u', '0', '0', hexDigit (c.toNat / 16), hexDigit (c.toNat % 16)]
  else [c]

/-- The characters inside the quotes of a string. -/
def stringBody : List Char → List Char
  | [] => []
  | c :: rest => stringChar c ++ stringBody rest

/-- A string with its quotes. -/
def stringChars (s : String) : List Char := '"' :: (stringBody s.toList ++ ['"'])

/-! ### Numbers -/

/-- An exponent, always with its sign. -/
def exponentChars (e : Int) : List Char :=
  (if e < 0 then '-' else '+') :: (toString e.natAbs).toList

/-- The decimal `digits * 10 ^ exponent` of a number that is not zero. -/
def decimalChars (digits : Nat) (exponent : Int) : List Char :=
  let ds := (toString digits).toList
  let point : Int := ds.length + exponent
  let zeros (n : Int) : List Char := List.replicate n.toNat '0'
  if 0 ≤ exponent ∧ point ≤ 16 then ds ++ zeros exponent ++ ['.', '0']
  else if 0 < point ∧ point ≤ 16 then ds.take point.toNat ++ '.' :: ds.drop point.toNat
  else if -5 < point ∧ point ≤ 0 then '0' :: '.' :: (zeros (-point) ++ ds)
  else
    ds.take 1 ++ (if ds.length = 1 then [] else '.' :: ds.drop 1) ++
      'e' :: exponentChars (point - 1)

/-- A floating-point number; one that is not finite is written as `null`. -/
def floatChars (x : Float) : List Char :=
  match Parts.ofFloat x with
  | .finite negative mantissa exponent =>
    (if negative then ['-'] else []) ++
      if mantissa = 0 then ['0', '.', '0']
      else
        let (digits, e) := shortest mantissa exponent
        decimalChars digits e
  | _ => "null".toList

/-- A number. -/
def Number.chars : Number → List Char
  | .int n => (toString n).toList
  | .float x => floatChars x

/-! ### Values -/

mutual

/-- The compact text of a value. -/
def chars : Json → List Char
  | .null => "null".toList
  | .bool b => (if b then "true" else "false").toList
  | .num n => n.chars
  | .str s => stringChars s
  | .arr items => '[' :: (itemChars items ++ [']'])
  | .obj fields => '\x7b' :: (fieldChars fields ++ ['\x7d'])

/-- The items of an array, with commas between. -/
def itemChars : List Json → List Char
  | [] => []
  | [item] => item.chars
  | item :: rest => item.chars ++ ',' :: itemChars rest

/-- The fields of an object, with commas between. -/
def fieldChars : List (String × Json) → List Char
  | [] => []
  | [(key, value)] => stringChars key ++ ':' :: value.chars
  | (key, value) :: rest => stringChars key ++ ':' :: (value.chars ++ ',' :: fieldChars rest)

end

/-- The compact text of a value. -/
def text (j : Json) : String := String.ofList j.chars

/-- A new line indented to a level. -/
def newline (level : Nat) : List Char := '\n' :: List.replicate (2 * level) ' '

mutual

/-- The text of a value over lines; `level` is the level that the value stands on. -/
def prettyChars (level : Nat) : Json → List Char
  | .arr [] => ['[', ']']
  | .arr (item :: rest) =>
    '[' :: (newline (level + 1) ++ item.prettyChars (level + 1) ++ prettyItems (level + 1) rest ++
      newline level ++ [']'])
  | .obj [] => ['\x7b', '\x7d']
  | .obj ((key, value) :: rest) =>
    '\x7b' :: (newline (level + 1) ++ stringChars key ++ ':' :: ' ' ::
      value.prettyChars (level + 1) ++ prettyFields (level + 1) rest ++ newline level ++ ['\x7d'])
  | .null => "null".toList
  | .bool b => (if b then "true" else "false").toList
  | .num n => n.chars
  | .str s => stringChars s

/-- The items after the first, each after a comma on a line of its own. -/
def prettyItems (level : Nat) : List Json → List Char
  | [] => []
  | item :: rest => ',' :: (newline level ++ item.prettyChars level ++ prettyItems level rest)

/-- The fields after the first, each after a comma on a line of its own. -/
def prettyFields (level : Nat) : List (String × Json) → List Char
  | [] => []
  | (key, value) :: rest =>
    ',' :: (newline level ++ stringChars key ++ ':' :: ' ' :: value.prettyChars level ++
      prettyFields level rest)

end

/-- The text of a value over lines. -/
def pretty (j : Json) : String := String.ofList (j.prettyChars 0)

end ExecutionControl.Json
