import ExactLinear.AlgebraError
import ExactLinear.RowOp

/- Elimination of a grid, column by column from left to right. The first nonzero
   entry at or below the first row without a pivot becomes the pivot of its
   column and is swapped into that row; a column without one is free. Entries
   below a pivot are always cleared. In reduced mode a pivot row is divided by
   its pivot first, and a second pass from the last pivot to the first clears
   the entries above.

   The grid is changed one row operation after another, each of them noted in a
   log. A division can fail, and the run with it; that a run never meets a zero
   divisor is a theorem about it and not a part of its definition. -/
namespace ExactLinear

/-- How far elimination goes. -/
inductive Mode where
  /-- Zeros below each pivot; pivots keep their values. -/
  | echelon
  /-- Every pivot is one and the only nonzero entry of its column. -/
  | reduced
  deriving DecidableEq, Repr

/-- A grid that is being worked on, and the row operations that led to it, the latest first. -/
structure Work (m n : Nat) where
  grid : Grid m n
  log : List (RowOp m)
  deriving DecidableEq

namespace Work
variable {m n : Nat}

/-- The row operations performed, in order. -/
def operations (w : Work m n) : List (RowOp m) := w.log.reverse

/-- Performs an operation and notes it. -/
def record (w : Work m n) (op : RowOp m) : Work m n := ⟨op.apply w.grid, op :: w.log⟩

/-- Makes the entries of column `c` in the target rows zero by adding multiples of row `r`, whose
own entry there is the pivot. A target that is zero already is passed over. -/
def clear (pivot : Scalar) (r : Fin m) (c : Fin n) (w : Work m n) :
    List (Fin m) → Except AlgebraError (Work m n)
  | [] => .ok w
  | t :: rest =>
    if w.grid.get t c = 0 then w.clear pivot r c rest
    else
      (Scalar.divide (w.grid.get t c) pivot).bind fun q =>
        (w.record (.replace t r (-q))).clear pivot r c rest

/-- Clears column `c` in the target rows with the entry of row `r` as the pivot. -/
def clearColumn (w : Work m n) (r : Fin m) (c : Fin n) (targets : List (Fin m)) :
    Except AlgebraError (Work m n) :=
  w.clear (w.grid.get r c) r c targets

end Work

/-- How far elimination of a grid has come, and what it saw on the way. -/
structure Elimination (m n : Nat) extends Work m n where
  /-- The pivot columns; the pivot of row `i` is in column `pivots[i]`. -/
  pivots : List (Fin n)
  /-- The product of the pivots as they were found, before any scaling. -/
  pivotProduct : Scalar
  rowSwaps : Nat
  deriving DecidableEq

namespace Elimination
variable {m n : Nat}

def rank (E : Elimination m n) : Nat := E.pivots.length

/-- Nothing done yet. -/
def start (A : Grid m n) : Elimination m n := ⟨⟨A, []⟩, [], 1, 0⟩

/-! One column. -/

def rowsBelow (r : Fin m) : List (Fin m) := (List.finRange m).filter (r < ·)

def rowsAbove (r : Fin m) : List (Fin m) := (List.finRange m).filter (· < r)

/-- The first row from `r` down with a nonzero entry in column `c`. -/
def pivotRow? (A : Grid m n) (r : Fin m) (c : Fin n) : Option (Fin m) :=
  (List.finRange m).find? fun i => decide (r ≤ i) && decide (A.get i c ≠ 0)

/-- Divides row `r` by its pivot, in reduced mode and when the pivot is not one already. -/
def normalize (mode : Mode) (pivot : Scalar) (r : Fin m) (w : Work m n) :
    Except AlgebraError (Work m n) :=
  if mode = .reduced ∧ pivot ≠ 1 then
    (Scalar.reciprocal pivot).map fun q => w.record (.scale r q)
  else .ok w

/-- Makes the entry of row `found` in column `c` the pivot of row `r`: moves it there, divides
the row by it in reduced mode, and clears the column below. -/
def pivotAt (mode : Mode) (E : Elimination m n) (r found : Fin m) (c : Fin n) :
    Except AlgebraError (Elimination m n) :=
  let placed := if found = r then E.toWork else E.record (.swap found r)
  let pivot := placed.grid.get r c
  (normalize mode pivot r placed).bind fun scaled =>
    (scaled.clearColumn r c (rowsBelow r)).map fun cleared =>
      { toWork := cleared
        pivots := E.pivots ++ [c]
        pivotProduct := E.pivotProduct * pivot
        rowSwaps := E.rowSwaps + if found = r then 0 else 1 }

/-! The two passes. -/

/-- The pass down: the listed columns in turn, for as long as there is a row without a pivot. -/
def descend (mode : Mode) (E : Elimination m n) :
    List (Fin n) → Except AlgebraError (Elimination m n)
  | [] => .ok E
  | c :: rest =>
    if h : E.pivots.length < m then
      match pivotRow? E.grid ⟨E.pivots.length, h⟩ c with
      | none => E.descend mode rest
      | some found =>
        (E.pivotAt mode ⟨E.pivots.length, h⟩ found c).bind fun next => next.descend mode rest
    else .ok E

/-- The pass up: clears the column of each listed pivot above its row, the last in the list
first. -/
def ascend (w : Work m n) : List (Fin m × Fin n) → Except AlgebraError (Work m n)
  | [] => .ok w
  | (r, c) :: later => (ascend w later).bind fun w' => w'.clearColumn r c (rowsAbove r)

/-- The rows that have a pivot, each with the column of its pivot. -/
def places (E : Elimination m n) : List (Fin m × Fin n) := (List.finRange m).zip E.pivots

end Elimination

/-- Elimination of a grid in either mode. -/
def Grid.eliminate {m n : Nat} (A : Grid m n) (mode : Mode) :
    Except AlgebraError (Elimination m n) :=
  ((Elimination.start A).descend mode (List.finRange n)).bind fun down =>
    match mode with
    | .echelon => .ok down
    | .reduced =>
      (Elimination.ascend down.toWork down.places).map fun up => { down with toWork := up }

end ExactLinear
