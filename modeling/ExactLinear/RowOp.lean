import ExactLinear.Grid

/- Elementary row operations on grids of `m` rows. `apply` performs one,
   `applyAll` a list of them in order. A swap may name one row twice, a scaling
   factor may be zero and a row may be added to itself: `apply` is defined for
   all of them, though only some can be undone. -/
namespace ExactLinear

/-- A row operation, its rows counted from zero. -/
inductive RowOp (m : Nat) where
  | swap (first second : Fin m)
  /-- The row times the factor. -/
  | scale (row : Fin m) (factor : Scalar)
  /-- The target plus the factor times the source. -/
  | replace (target source : Fin m) (factor : Scalar)
  deriving DecidableEq, Repr

namespace RowOp
variable {m n : Nat}

def apply : RowOp m → Grid m n → Grid m n
  | .swap i j, A => ⟨A.rows.swap i j i.isLt j.isLt⟩
  | .scale i q, A => A.setRow i ((A.row i).map (· * q))
  | .replace t s q, A => A.setRow t (Vector.zipWith (fun a b => a + q * b) (A.row t) (A.row s))

/-- The operations one after another, the first in the list first. -/
def applyAll (ops : List (RowOp m)) (A : Grid m n) : Grid m n :=
  ops.foldl (fun G op => op.apply G) A

/-- Rows are printed counted from one. -/
def text : RowOp m → String
  | .swap i j => s!"R{i.val + 1} <-> R{j.val + 1}"
  | .scale i q => s!"R{i.val + 1} -> {Scalar.text q} R{i.val + 1}"
  | .replace t s q => s!"R{t.val + 1} -> R{t.val + 1} + {Scalar.text q} R{s.val + 1}"

end RowOp

end ExactLinear
