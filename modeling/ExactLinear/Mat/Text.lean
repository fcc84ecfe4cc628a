import ExactLinear.Mat.Basic

/- The printed form of a matrix: a line for each row, the entries of a column
   aligned at their right ends, and no column wider than its widest entry. `Layout`
   says what a printed line is made of and leaves its blanks open. -/
namespace ExactLinear

namespace Mat

/-- The length of the longest text in each of `cols` columns. -/
def columnWidths (cols : Nat) (cells : List (List String)) : List Nat :=
  cells.foldl (fun widths row => List.zipWith (fun w cell => max w cell.length) widths row)
    (List.replicate cols 0)

/-- Blanks in front of a text up to a width. -/
def alignRight (width : Nat) (cell : String) : String :=
  String.ofList (List.replicate (width - cell.length) ' ') ++ cell

/-- `[ a  b ]`: a blank in front of every aligned entry and of the closing bracket. -/
def rowText (widths : List Nat) (row : List String) : String :=
  "[" ++ String.join (List.zipWith (fun w cell => " " ++ alignRight w cell) widths row) ++ " ]"

def text (A : Mat) : String :=
  let cells := A.toRows.map fun row => row.map Scalar.text
  let widths := columnWidths A.cols cells
  String.intercalate "\n" (cells.map (rowText widths))

/-- The text of an entry. -/
def cell (A : Mat) (i : Fin A.rows) (j : Fin A.cols) : List Char :=
  (Scalar.text (A.grid.get i j)).toList

end Mat

/-! Entries in brackets, each behind some blanks. How many stand in front of an entry is left
open. -/

namespace Layout
variable {n : Nat} (gap : Fin n → Nat) (cell : Fin n → List Char)

/-- The entries of a line, each behind its blanks. -/
def fields : List (List Char) := List.ofFn fun j => List.replicate (gap j) ' ' ++ cell j

/-- A line, which is closed behind one more blank. -/
def line : List Char := '[' :: ((fields gap cell).flatten ++ [' ', ']'])

/-- A line up to the end of entry `j`. -/
def upTo (j : Fin n) : List Char := '[' :: ((fields gap cell).take (j.val + 1)).flatten

end Layout

end ExactLinear
