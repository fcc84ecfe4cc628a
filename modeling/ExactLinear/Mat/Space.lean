import ExactLinear.Mat.Echelon
import ExactLinear.Mat.Selection

/- The spaces of a matrix (its rows, its columns, its null space) and whether the
   linear system that it writes down has a solution. -/
namespace ExactLinear.Mat

def rank (A : Mat) : Except AlgebraError Nat := (A.eliminate .echelon).map Elimination.rank

/-- The number of columns without a pivot. -/
def nullity (A : Mat) : Except AlgebraError Nat := A.rank.map fun r => A.cols - r

def zero (rows cols : Nat) (hrows : 0 < rows) (hcols : 0 < cols) : Mat :=
  ⟨rows, cols, hrows, hcols, Grid.zero rows cols⟩

/-- The pivot columns of `A` as they stand in `A`; one zero column when there is none. -/
def columnSpace (A : Mat) : Except AlgebraError Mat :=
  (A.eliminate .reduced).map fun E =>
    if h : E.pivots = [] then zero A.rows 1 A.rows_pos Nat.one_pos
    else A.selectColumns E.pivots h

/-- The nonzero rows of the reduced form; one zero row when there is none. -/
def rowSpace (A : Mat) : Except AlgebraError Mat :=
  (A.eliminate .reduced).map fun E =>
    if h : (List.finRange A.rows).take E.rank = [] then zero 1 A.cols Nat.one_pos A.cols_pos
    else (A.withGrid E.grid).selectRows ((List.finRange A.rows).take E.rank) h

/-- Whether the system has a solution whose right-hand side is the last column: that column
holds no pivot. -/
def isConsistent (A : Mat) : Except AlgebraError Bool :=
  (A.eliminate .echelon).map fun E => E.pivots.getLast?.map Fin.val != some (A.cols - 1)

/-! The linear system that a matrix writes down. Its last column is the right-hand side, and the
columns before it, of which there may be none, are the coefficients. -/

def coefficients (M : Mat) : Grid M.rows (M.cols - 1) :=
  Grid.ofFn fun i j => M.grid.get i (j.castLE (Nat.sub_le M.cols 1))

/-- The last column. -/
def lastColumn (M : Mat) : Fin M.cols := ⟨M.cols - 1, Nat.sub_lt M.cols_pos Nat.one_pos⟩

def rightHandSide (M : Mat) : Grid M.rows 1 := Grid.ofFn fun i _ => M.grid.get i M.lastColumn

@[simp] theorem get_coefficients (M : Mat) (i : Fin M.rows) (j : Fin (M.cols - 1)) :
    M.coefficients.get i j = M.grid.get i (j.castLE (Nat.sub_le M.cols 1)) := by
  simp [coefficients]

@[simp] theorem get_rightHandSide (M : Mat) (i : Fin M.rows) (j : Fin 1) :
    M.rightHandSide.get i j = M.grid.get i M.lastColumn := by
  simp [rightHandSide]

theorem le_lastColumn (M : Mat) (j : Fin M.cols) : j ≤ M.lastColumn := Nat.le_sub_one_of_lt j.isLt

end ExactLinear.Mat
