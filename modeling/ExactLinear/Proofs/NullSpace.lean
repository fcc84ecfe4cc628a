import ExactLinear.Proofs.Span
import Mathlib.LinearAlgebra.Dimension.RankNullity

/- What the number of pivots says without elimination. It is the same for the
   transpose, so rows and columns have one rank. The columns without a pivot count
   the null vectors: the number of columns is the rank and the dimension of the null
   space together, so there is a list of that many independent null vectors that all
   the others are combinations of. -/
namespace ExactLinear

open scoped Matrix

variable {m n : Nat}

namespace Grid

/-- The vectors that are sent to zero. -/
def nullSpace (A : Grid m n) : Submodule Scalar (Fin n → Scalar) :=
  LinearMap.ker A.toMatrix.mulVecLin

theorem mem_nullSpace {A : Grid m n} {x : Fin n → Scalar} :
    x ∈ A.nullSpace ↔ A.toMatrix *ᵥ x = 0 := by
  rw [nullSpace, LinearMap.mem_ker, Matrix.mulVecLin_apply]

theorem rank_add_finrank_nullSpace (A : Grid m n) :
    A.toMatrix.rank + Module.finrank Scalar A.nullSpace = n := by
  have h := LinearMap.finrank_range_add_finrank_ker A.toMatrix.mulVecLin
  rwa [Module.finrank_fin_fun] at h

/-- A list of independent vectors that span the null space, of any length that is its
dimension. -/
theorem exists_nullVectors (A : Grid m n) {k : Nat} (hk : A.toMatrix.rank + k = n) :
    ∃ xs : Fin k → Fin n → Scalar, LinearIndependent Scalar xs ∧
      Submodule.span Scalar (Set.range xs) = A.nullSpace := by
  have hdim : Module.finrank Scalar A.nullSpace = k := by
    have h := A.rank_add_finrank_nullSpace
    omega
  let basis := Module.finBasisOfFinrankEq Scalar A.nullSpace hdim
  refine ⟨fun l => basis l, ?_, ?_⟩
  · exact basis.linearIndependent.map' A.nullSpace.subtype (Submodule.ker_subtype _)
  · calc Submodule.span Scalar (Set.range fun l => (basis l : Fin n → Scalar))
        = (Submodule.span Scalar (Set.range basis)).map A.nullSpace.subtype := by
          rw [Submodule.map_span, ← Set.range_comp]
          rfl
      _ = A.nullSpace := by rw [basis.span_eq, Submodule.map_top, Submodule.range_subtype]

end Grid

namespace Mat

theorem rank_transpose (A : Mat) : A.transpose.rank = A.rank := by
  rw [rank_eq, rank_eq]
  show Except.ok A.grid.transpose.toMatrix.rank = _
  rw [Grid.toMatrix_transpose, Matrix.rank_transpose]

/-- The rank of a matrix and that of its transpose are found, and they are one number. The nullity
is found as well, and it is the dimension of the null space: so many independent vectors there are
that the matrix sends to zero, and what it sends to zero are their combinations. -/
theorem rank_nullity (A : Mat) :
    (∃ r, A.rank = .ok r ∧ A.transpose.rank = .ok r) ∧
    ∃ k, A.nullity = .ok k ∧
      ∃ xs : Fin k → Fin A.cols → Scalar, LinearIndependent Scalar xs ∧
        (∀ l, A.grid.toMatrix *ᵥ xs l = 0) ∧
        ∀ x, A.grid.toMatrix *ᵥ x = 0 → x ∈ Submodule.span Scalar (Set.range xs) := by
  have hsum : A.grid.toMatrix.rank + (A.cols - A.grid.toMatrix.rank) = A.cols :=
    Nat.add_sub_of_le (Matrix.rank_le_width _)
  obtain ⟨xs, hindependent, hspan⟩ := A.grid.exists_nullVectors hsum
  refine ⟨⟨_, A.rank_eq, A.rank_transpose.trans A.rank_eq⟩, _, A.nullity_eq, xs, hindependent,
    ?_, ?_⟩
  · intro l
    rw [← Grid.mem_nullSpace, ← hspan]
    exact Submodule.subset_span ⟨l, rfl⟩
  · intro x hx
    rw [hspan]
    exact Grid.mem_nullSpace.mpr hx

end Mat

end ExactLinear
