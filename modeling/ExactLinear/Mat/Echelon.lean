import ExactLinear.Elimination
import ExactLinear.Mat.Arithmetic

/- Echelon forms of a matrix, and the two quantities of a square matrix that are
   read off an elimination: its determinant and its inverse. -/
namespace ExactLinear.Mat

def eliminate (A : Mat) (mode : Mode) : Except AlgebraError (Elimination A.rows A.cols) :=
  A.grid.eliminate mode

def echelon (A : Mat) : Except AlgebraError Mat :=
  (A.eliminate .echelon).map fun E => A.withGrid E.grid

def reduced (A : Mat) : Except AlgebraError Mat :=
  (A.eliminate .reduced).map fun E => A.withGrid E.grid

/-- The product of the pivots with the sign of the row swaps, zero without a full set of pivots. -/
def determinant (A : Mat) : Except AlgebraError Scalar :=
  if A.rows = A.cols then
    (A.eliminate .echelon).map fun E =>
      if E.rank < A.rows then 0
      else if E.rowSwaps % 2 = 1 then -E.pivotProduct
      else E.pivotProduct
  else .error (.shape (.notSquare "determinant" A.shape))

/-- The right half of the reduced form of `A` with the identity beside it, when the pivots are
the columns of `A`. -/
def inverse (A : Mat) : Except AlgebraError Mat :=
  if A.rows = A.cols then
    ((A.grid.augment (Grid.identity A.rows)).eliminate .reduced).bind fun E =>
      if E.pivots.map Fin.val = List.range A.rows then
        .ok ⟨A.rows, A.rows, A.rows_pos, A.rows_pos, E.grid.rightPart⟩
      else .error .singular
  else .error (.shape (.notSquare "inverse" A.shape))

end ExactLinear.Mat
