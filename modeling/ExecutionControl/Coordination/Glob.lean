/-! # Key patterns

    In a key pattern a `*` stands for any run of characters, also for none, and every
    other character for itself. A text is matched piece by piece: the piece before the
    first `*` at the front, the piece after the last `*` at the back, and every piece
    between at the first place where it occurs after the pieces before it.
-/

namespace ExecutionControl.Glob

/-- What is left of a text after the first occurrence of a piece. -/
def afterFirst (piece : List Char) : List Char → Option (List Char)
  | [] => if piece.isEmpty then some [] else none
  | c :: rest =>
    if piece.isPrefixOf (c :: rest) then some ((c :: rest).drop piece.length)
    else afterFirst piece rest

/-- Whether the pieces occur in a text one after another. -/
def inOrder : List (List Char) → List Char → Bool
  | [], _ => true
  | piece :: pieces, text =>
    match afterFirst piece text with
    | some rest => inOrder pieces rest
    | none => false

/-- The pieces of a pattern between its `*`s; there is always one more than there are
    `*`s. -/
def pieces : List Char → List (List Char)
  | [] => [[]]
  | c :: rest =>
    if c = '*' then [] :: pieces rest
    else
      match pieces rest with
      | piece :: more => (c :: piece) :: more
      | [] => [[c]]

/-- Whether a text starts with one piece, ends with another, and has room for both. -/
def between (first last text : List Char) : Bool :=
  first.isPrefixOf text && first.length + last.length ≤ text.length && last.isSuffixOf text

/-- Whether a pattern matches the characters of a text. -/
def matchesChars (pattern text : List Char) : Bool :=
  match pieces pattern with
  | [] => false
  | [piece] => piece == text
  | first :: more =>
    let last := more.getLastD []
    let inner := text.length - first.length - last.length
    between first last text && inOrder more.dropLast ((text.drop first.length).take inner)

/-- Whether a pattern matches a text. -/
def isMatch (pattern text : String) : Bool := matchesChars pattern.toList text.toList

end ExecutionControl.Glob
