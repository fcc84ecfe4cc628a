import ExactLinear.Mat.Space

/- Families of vectors: the columns of one or more matrices of equal height, taken
   together in order. Every question joins the matrices side by side first, and
   is refused when that fails or when there is no matrix. -/
namespace ExactLinear

namespace Family

/-- The members side by side; an empty family is refused in the name of the operation. -/
def joined (operation : String) : List Mat → Except AlgebraError Mat
  | [] => .error (.shape (.noVectors operation))
  | A :: rest => A.augmentAll rest

/-- The vectors that are not combinations of those before them. -/
def span (family : List Mat) : Except AlgebraError Mat :=
  (joined "span" family).bind Mat.columnSpace

def dimension (family : List Mat) : Except AlgebraError Nat :=
  (joined "dim" family).bind Mat.rank

def isIndependent (family : List Mat) : Except AlgebraError Bool :=
  (joined "is_independent" family).bind fun A => A.rank.map fun r => r == A.cols

def isBasis (family : List Mat) : Except AlgebraError Bool :=
  (joined "is_basis" family).bind fun A =>
    if A.isSquare then A.rank.map fun r => r == A.cols else .ok false

/-- Whether every column of `target` is a combination of the columns of `vectors`: joining
them adds nothing to the rank. -/
def spans (vectors target : Mat) : Except AlgebraError Bool :=
  if vectors.rows = target.rows then
    vectors.rank.bind fun own =>
      (vectors.augment target).bind fun both => both.rank.map fun joint => own == joint
  else .error (.shape (.lengths vectors.shape target.shape))

end Family

/-! The vectors that the members of a family write down. A matrix of `m` rows stands for its
columns, each a function of the row, and a family of such matrices for the columns of its members
in order. -/

variable {m n : Nat}

/-- The columns from left to right. -/
def Grid.columns (A : Grid m n) : List (Fin m → Scalar) := List.ofFn fun j i => A.get i j

/-- The columns of a matrix that has `m` rows. -/
def Mat.vectors (A : Mat) (h : A.rows = m) : List (Fin m → Scalar) := h ▸ A.grid.columns

/-- The columns of the members of a family whose members have `m` rows. -/
def Family.vectors (family : List Mat) (h : ∀ A ∈ family, A.rows = m) : List (Fin m → Scalar) :=
  (family.pmap Mat.vectors h).flatten

theorem Mat.vectors_eq (A : Mat) (h : A.rows = m) :
    A.vectors h = (A.grid.cast h rfl).columns := by
  subst h
  rfl

theorem Family.vectors_cons (A : Mat) (rest : List Mat) (h : ∀ B ∈ A :: rest, B.rows = m) :
    vectors (A :: rest) h =
      A.vectors (h A List.mem_cons_self) ++
        vectors rest fun B hB => h B (List.mem_cons_of_mem A hB) := rfl

end ExactLinear
