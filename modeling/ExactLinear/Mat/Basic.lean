import ExactLinear.AlgebraError
import ExactLinear.Grid

/- Matrices: a grid with at least one row and at least one column, together with
   its shape. `ofValues` and `ofRows` are the two ways in from lists; what they
   refuse is said by their errors. `values` and `toRows` lead back out. -/
namespace ExactLinear

/-! Limits on what is held at once. The items of one list lie side by side, and the bytes that
they fill are counted by a signed machine word of 64 bits. -/

namespace Limit

/-- The most bytes that one list may fill. -/
def bytes : Nat := 9223372036854775807

/-- The most row or column numbers in one list, at eight bytes each. -/
def indices : Nat := bytes / 8

/-- The most entries in one list, at sixty-four bytes each. -/
def entries : Nat := bytes / 64

end Limit

/-- A matrix of any shape that has an entry. -/
structure Mat where
  rows : Nat
  cols : Nat
  rows_pos : 0 < rows
  cols_pos : 0 < cols
  grid : Grid rows cols
  deriving DecidableEq

namespace Mat

def shape (A : Mat) : Shape := ⟨A.rows, A.cols⟩

def isSquare (A : Mat) : Bool := A.rows == A.cols

/-- Another grid of the same shape in place of the matrix's own. -/
def withGrid (A : Mat) (G : Grid A.rows A.cols) : Mat := { A with grid := G }

/-! Construction. -/

/-- The matrix of the given shape with the given values, row after row. -/
def ofValues (rows cols : Nat) (values : List Scalar) : Except AlgebraError Mat :=
  if hrows : rows = 0 then .error (.shape (.empty ⟨rows, cols⟩))
  else if hcols : cols = 0 then .error (.shape (.empty ⟨rows, cols⟩))
  else if h : rows * cols = values.toArray.size then
    .ok ⟨rows, cols, Nat.pos_of_ne_zero hrows, Nat.pos_of_ne_zero hcols,
      Grid.ofValues values.toArray h⟩
  else .error (.shape (.unfilled values.length ⟨rows, cols⟩))

/-- The length of the first row, zero when there is none. -/
def width (rows : List (List Scalar)) : Nat := (rows.head?.map List.length).getD 0

/-- The number and the length of the first row that has another length than `cols`. -/
def raggedRow? (cols : Nat) (rows : List (List Scalar)) : Option (Nat × Nat) :=
  (rows.zipIdx.find? fun r => r.1.length != cols).map fun r => (r.2, r.1.length)

/-- The matrix with the given rows. -/
def ofRows (rows : List (List Scalar)) : Except AlgebraError Mat :=
  match raggedRow? (width rows) rows with
  | some (row, found) => .error (.shape (.ragged row found (width rows)))
  | none => ofValues rows.length (width rows) rows.flatten

/-- The square matrix of `n` rows with ones on the diagonal and zeros elsewhere. -/
def identity (n : Nat) (h : 0 < n) : Mat := ⟨n, n, h, h, Grid.identity n⟩

/-- The identity matrix of a size that may be any count. A size is refused when the entries
cannot be counted, and cannot be served when they can be counted but not held. -/
def identityOfSize (n : Nat) : Except (AlgebraError ⊕ Fault) Mat :=
  if Scalar.countBound ≤ n * n then .error (.inl (.shape (.tooLarge ⟨n, n⟩)))
  else if Limit.entries < n * n then .error (.inr (.tooMany (n * n)))
  else if h : 0 < n then .ok (identity n h)
  else .error (.inl (.shape (.empty ⟨n, n⟩)))

/-! Contents. -/

def toRows (A : Mat) : List (List Scalar) := A.grid.toRows

/-- All entries, row after row. -/
def values (A : Mat) : List Scalar := A.toRows.flatten

/-- The entry at row `i` and column `j`, both counted from zero. -/
def entry (A : Mat) (i j : Nat) : Except Fault Scalar :=
  if h : i < A.rows ∧ j < A.cols then .ok (A.grid.get ⟨i, h.1⟩ ⟨j, h.2⟩)
  else .error (.entry i j A.shape)

/-- The entries of row `i`. -/
def row (A : Mat) (i : Nat) : Except Fault (List Scalar) :=
  if h : i < A.rows then .ok (A.grid.row ⟨i, h⟩).toList else .error (.row i A.shape)

end Mat

end ExactLinear
