/-! # Table columns

    Padding of a cell to the width of its column. Widths count code points; a
    cell that is wider than its column is left as it is.
-/

namespace ExecutionControl.Text

/-- The cell followed by the blanks that fill its column. -/
def alignLeft (width : Nat) (cell : String) : String :=
  cell ++ String.ofList (List.replicate (width - cell.length) ' ')

/-- The cell preceded by the blanks that fill its column. -/
def alignRight (width : Nat) (cell : String) : String :=
  String.ofList (List.replicate (width - cell.length) ' ') ++ cell

/-- A rule of `width` dashes. -/
def rule (width : Nat) : String :=
  String.ofList (List.replicate width '-')

/-- The decimal digits of `n`, padded with zeros at the front to at least `width`. -/
def zeroPadded (width n : Nat) : String :=
  let digits := toString n
  String.ofList (List.replicate (width - digits.length) '0') ++ digits

end ExecutionControl.Text
