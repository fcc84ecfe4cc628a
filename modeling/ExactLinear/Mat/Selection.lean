import ExactLinear.Mat.Basic

/- Rows and columns taken out of a matrix, or exchanged. `selectRows` and
   `selectColumns` take indices that are known to be in range; the forms on
   plain numbers check them first and name the first that is not. -/
namespace ExactLinear.Mat

/-- The listed rows, in the listed order. -/
def selectRows (A : Mat) (is : List (Fin A.rows)) (h : is ≠ []) : Mat :=
  ⟨is.length, A.cols, List.length_pos_iff.mpr h, A.cols_pos, A.grid.selectRows is⟩

/-- The listed columns, in the listed order. -/
def selectColumns (A : Mat) (js : List (Fin A.cols)) (h : js ≠ []) : Mat :=
  ⟨A.rows, js.length, A.rows_pos, List.length_pos_iff.mpr h, A.grid.selectColumns js⟩

/-- The numbers as indices below `n`, or the fault of the first that is too large. -/
def indices (n : Nat) (fault : Nat → Fault) : List Nat → Except Fault (List (Fin n))
  | [] => .ok []
  | i :: is =>
    if h : i < n then (indices n fault is).map (⟨i, h⟩ :: ·) else .error (fault i)

def rowsAt (A : Mat) (is : List Nat) : Except Fault Mat :=
  match indices A.rows (.row · A.shape) is with
  | .ok [] => .error .noRows
  | .ok (i :: rest) => .ok (A.selectRows (i :: rest) (List.cons_ne_nil i rest))
  | .error fault => .error fault

/-- A column out of range is reported by its entry in the first row. -/
def columnsAt (A : Mat) (js : List Nat) : Except Fault Mat :=
  match indices A.cols (.entry 0 · A.shape) js with
  | .ok [] => .error .noColumns
  | .ok (j :: rest) => .ok (A.selectColumns (j :: rest) (List.cons_ne_nil j rest))
  | .error fault => .error fault

theorem indices_map_val {n : Nat} (fault : Nat → Fault) (js : List (Fin n)) :
    indices n fault (js.map Fin.val) = .ok js := by
  induction js with
  | nil => rfl
  | cons j js ih =>
    rw [List.map_cons, indices, dif_pos j.isLt, ih]
    rfl

theorem columnsAt_map_val (A : Mat) (js : List (Fin A.cols)) (h : js ≠ []) :
    A.columnsAt (js.map Fin.val) = .ok (A.selectColumns js h) := by
  rw [columnsAt, indices_map_val]
  cases js with
  | nil => exact absurd rfl h
  | cons j js => rfl

def column (A : Mat) (j : Nat) : Except Fault Mat := A.columnsAt [j]

/-- The columns from `first` up to, but not including, `last`. A range that leaves the matrix
does so within its first `A.cols + 1` columns, so no more than those are looked at. -/
def columnRange (A : Mat) (first last : Nat) : Except Fault Mat :=
  if Limit.indices < last - first then .error (.tooMany (last - first))
  else A.columnsAt (List.range' first (min (last - first) (A.cols + 1)))

/-- Exchanges two rows. A row exchanged with itself need not be one of the matrix. -/
def swapRows (A : Mat) (i j : Nat) : Except Fault Mat :=
  if i = j then .ok A
  else if hi : i < A.rows then
    if hj : j < A.rows then
      .ok (A.withGrid ⟨A.grid.rows.swap i j hi hj⟩)
    else .error (.row j A.shape)
  else .error (.row i A.shape)

end ExactLinear.Mat
