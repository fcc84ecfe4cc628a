import ExactLinear.Mat.Basic

/- Sums, multiples, products and transposes of matrices. An operation on two
   matrices is refused exactly when their shapes do not fit. -/
namespace ExactLinear.Mat

def add (A B : Mat) : Except AlgebraError Mat :=
  if h : B.rows = A.rows ∧ B.cols = A.cols then
    .ok (A.withGrid (A.grid.add (B.grid.cast h.1 h.2)))
  else .error (.shape (.sum A.shape B.shape))

def sub (A B : Mat) : Except AlgebraError Mat :=
  if h : B.rows = A.rows ∧ B.cols = A.cols then
    .ok (A.withGrid (A.grid.sub (B.grid.cast h.1 h.2)))
  else .error (.shape (.difference A.shape B.shape))

def neg (A : Mat) : Mat := A.withGrid A.grid.neg

def scale (q : Scalar) (A : Mat) : Mat := A.withGrid (A.grid.scale q)

/-- Every entry divided by `q`: the multiple by the reciprocal of `q`. -/
def divide (A : Mat) (q : Scalar) : Except AlgebraError Mat :=
  (Scalar.reciprocal q).map fun r => A.scale r

def mul (A B : Mat) : Except AlgebraError Mat :=
  if h : B.rows = A.cols then
    .ok ⟨A.rows, B.cols, A.rows_pos, B.cols_pos, A.grid.mul (B.grid.cast h rfl)⟩
  else .error (.shape (.product A.shape B.shape))

def transpose (A : Mat) : Mat :=
  ⟨A.cols, A.rows, A.cols_pos, A.rows_pos, A.grid.transpose⟩

/-- The columns of `A` followed by the columns of `B`. -/
def augment (A B : Mat) : Except AlgebraError Mat :=
  if h : B.rows = A.rows then
    .ok ⟨A.rows, A.cols + B.cols, A.rows_pos, Nat.add_pos_left A.cols_pos B.cols,
      A.grid.augment (B.grid.cast h rfl)⟩
  else .error (.shape (.augmentation A.shape B.shape))

/-- `A` and then the matrices of a list, side by side from left to right. -/
def augmentAll (A : Mat) : List Mat → Except AlgebraError Mat
  | [] => .ok A
  | B :: rest =>
    match A.augment B with
    | .ok joined => joined.augmentAll rest
    | .error e => .error e

end ExactLinear.Mat
