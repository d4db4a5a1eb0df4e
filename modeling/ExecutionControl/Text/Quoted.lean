import ExecutionControl.Text.Unprintable

/-! # Quoted text

    The form in which a text that came from outside is shown in a message: between
    double quotes, with everything escaped that would not be seen as itself.
-/

namespace ExecutionControl.Text

/-- The lower case hexadecimal digits of a number. -/
def hex (n : Nat) : String :=
  String.ofList (Nat.toDigits 16 n)

/-- The form of one character inside quotes: five short escapes, the braced code
    point for a character that cannot be seen on its own, else the character. -/
def quoteChar (c : Char) : String :=
  if c = '\x00' then "\\0"
  else if c = '\t' then "\\t"
  else if c = '\n' then "\\n"
  else if c = '\r' then "\\r"
  else if c = '"' then "\\\""
  else if c = '\\' then "\\\\"
  else if extendsGrapheme c || !isPrintable c then "\\u\x7b" ++ hex c.toNat ++ "\x7d"
  else c.toString

/-- The text between double quotes, escaped. -/
def quoted (s : String) : String :=
  "\"" ++ String.join (s.toList.map quoteChar) ++ "\""

end ExecutionControl.Text
