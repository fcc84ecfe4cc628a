import ExactLinear.Mat.Basic
import ExactLinear.Storage.Checked

/- Matrices as they are stored: two counts and one list of values, row after row.
   Nothing ties the three together, and only some operations check that the values
   they have made fill the shape. -/
namespace ExactLinear.Storage

/-- The product of two machine words, if it is a machine word too. -/
def product? (a b : UInt64) : Option UInt64 :=
  if a.toNat * b.toNat < UInt64.size then some (a * b) else none

structure Table where
  rows : Nat
  cols : Nat
  /-- All entries, row after row. -/
  values : List Scalar
  deriving DecidableEq

namespace Table
variable {ε : Type}

/-- A matrix as it is stored. -/
def ofMat (A : Mat) : Table := ⟨A.rows, A.cols, A.values⟩

def shape (T : Table) : Shape := ⟨T.rows, T.cols⟩

/-! Construction. -/

/-- The table of the given shape with the given values; this is the constructor that checks. -/
def ofValues (rows cols : Nat) (values : List Scalar) : Checked AlgebraError Table :=
  if rows = 0 ∨ cols = 0 then .error (.refusal (.shape (.empty ⟨rows, cols⟩)))
  else if rows * cols = values.length then .ok ⟨rows, cols, values⟩
  else .error (.refusal (.shape (.unfilled values.length ⟨rows, cols⟩)))

/-- The same constructor for a shape in machine words, whose product may be none. -/
def ofWords (rows cols : UInt64) (values : List Scalar) : Checked AlgebraError Table :=
  if rows = 0 ∨ cols = 0 then .error (.refusal (.shape (.empty ⟨rows.toNat, cols.toNat⟩)))
  else if product? rows cols = some (.ofNat values.length) then
    .ok ⟨rows.toNat, cols.toNat, values⟩
  else .error (.refusal (.shape (.unfilled values.length ⟨rows.toNat, cols.toNat⟩)))

def ofRows (rows : List (List Scalar)) : Checked AlgebraError Table :=
  match Mat.raggedRow? (Mat.width rows) rows with
  | some (row, found) => .error (.refusal (.shape (.ragged row found (Mat.width rows))))
  | none => ofValues rows.length (Mat.width rows) rows.flatten

def identity (n : Nat) : Checked AlgebraError Table :=
  ofValues n n ((List.range (n * n)).map fun i => if i / n = i % n then 1 else 0)

def zeros (rows cols : Nat) : Checked AlgebraError Table :=
  ofValues rows cols (List.replicate (rows * cols) 0)

/-- A table of the same shape; the values have to fill it. -/
def withValues (T : Table) (values : List Scalar) : Checked ε Table :=
  if values.length = T.values.length then .ok { T with values }
  else .error (.panic (.unfilled values.length T.shape))

/-! Access. -/

def get (T : Table) (i j : Nat) : Checked ε Scalar :=
  if i < T.rows ∧ j < T.cols then item T.values (i * T.cols + j)
  else .error (.panic (.entry i j T.shape))

def row (T : Table) (i : Nat) : Checked ε (List Scalar) :=
  slice T.values (i * T.cols) ((i + 1) * T.cols)

/-! Arithmetic. -/

def map (f : Scalar → Scalar) (T : Table) : Checked ε Table := T.withValues (T.values.map f)

/-- Entry by entry, for tables of equal shape. -/
def zipWith (mismatch : ShapeError) (f : Scalar → Scalar → Scalar) (T U : Table) :
    Checked AlgebraError Table :=
  if U.rows = T.rows ∧ U.cols = T.cols then
    .ok { T with values := List.zipWith f T.values U.values }
  else .error (.refusal (.shape mismatch))

def add (T U : Table) : Checked AlgebraError Table :=
  zipWith (.sum T.shape U.shape) (· + ·) T U

def sub (T U : Table) : Checked AlgebraError Table :=
  zipWith (.difference T.shape U.shape) (· - ·) T U

def neg (T : Table) : Checked ε Table := T.map (- ·)

def scale (q : Scalar) (T : Table) : Checked ε Table := T.map (· * q)

def divide (T : Table) (q : Scalar) : Checked AlgebraError Table := do
  let r ← attempt (Scalar.reciprocal q)
  T.scale r

/-- Row `i` of `T` times column `j` of `U`, summed from the left. -/
def dot (T U : Table) (i j : Nat) : Checked ε Scalar :=
  (List.range T.cols).foldlM (fun sum k => do
    let a ← T.get i k
    let b ← U.get k j
    return sum + a * b) 0

def mul (T U : Table) : Checked AlgebraError Table :=
  if U.rows = T.cols then do
    let values ← (pairs (List.range T.rows) (List.range U.cols)).mapM fun p => T.dot U p.1 p.2
    ofValues T.rows U.cols values
  else .error (.refusal (.shape (.product T.shape U.shape)))

def augment (T U : Table) : Checked AlgebraError Table :=
  if U.rows = T.rows then do
    let rows ← (List.range T.rows).mapM fun i => do
      let left ← T.row i
      let right ← U.row i
      return left ++ right
    ofValues T.rows (T.cols + U.cols) rows.flatten
  else .error (.refusal (.shape (.augmentation T.shape U.shape)))

/-- `T` and then the tables of a list, side by side from left to right. -/
def augmentAll (T : Table) (rest : List Table) : Checked AlgebraError Table :=
  rest.foldlM augment T

/-! Rearrangement. The results are put together without a check. -/

def transpose (T : Table) : Checked ε Table := do
  let values ← (pairs (List.range T.cols) (List.range T.rows)).mapM fun p => T.get p.2 p.1
  return ⟨T.cols, T.rows, values⟩

/-- The listed columns, in the listed order. -/
def selectColumns (T : Table) (js : List Nat) : Checked ε Table :=
  if js = [] then .error (.panic .noColumns)
  else do
    let values ← (pairs (List.range T.rows) js).mapM fun p => T.get p.1 p.2
    return ⟨T.rows, js.length, values⟩

/-- The listed rows, in the listed order. -/
def selectRows (T : Table) (is : List Nat) : Checked ε Table :=
  if is = [] then .error (.panic .noRows)
  else do
    let rows ← is.mapM T.row
    return ⟨is.length, T.cols, rows.flatten⟩

end Table

end ExactLinear.Storage
