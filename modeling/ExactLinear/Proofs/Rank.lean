import ExactLinear.Mat.Space
import ExactLinear.Proofs.Elimination.Replay
import Mathlib.LinearAlgebra.Matrix.Echelon.Pivot

/- The rank that elimination counts is the rank of the matrix: an echelon form has
   as many independent rows as pivots, and the operations of the log, which can be
   undone, keep the rank. -/
namespace ExactLinear

variable {m n : Nat}

namespace Grid

/-- The pivot column of each row, and above all columns for a row without one. -/
def leading (p : List (Fin n)) (i : Fin m) : WithTop (Fin n) := p[i.val]?

theorem leading_eq_coe {p : List (Fin n)} {i : Fin m} {c : Fin n} :
    leading p i = c ↔ p[i.val]? = some c := Iff.rfl

theorem leading_eq_top {p : List (Fin n)} {i : Fin m} : leading p i = ⊤ ↔ p.length ≤ i.val :=
  List.getElem?_eq_none_iff

namespace IsEchelon
variable {A : Grid m n} {p : List (Fin n)}

theorem isRowEchelon (h : A.IsEchelon p) : A.toMatrix.IsRowEchelon := by
  intro i x hix j hzero
  rcases Nat.lt_or_ge x.val p.length with hlt | hge
  · have hd := List.getElem?_eq_getElem hlt
    have hc := List.getElem?_eq_getElem (Nat.lt_trans hix hlt)
    rcases lt_or_ge j p[x.val] with hj | hj
    · exact h.zero_before x _ hd j hj
    · -- The pivot of row `i` would stand further left, and it is not zero.
      have hcd := lt_of_getElem?_lt h.increasing hc hd hix
      exact absurd (hzero _ (hcd.trans_le hj)) (h.pivot_ne_zero i _ hc)
  · exact h.zero_rows x hge j

theorem isPivotedBy (h : A.IsEchelon p) : A.toMatrix.IsPivotedBy (leading p) := by
  refine ⟨h.isRowEchelon, fun i => ⟨?_, fun c hc => h.pivot_ne_zero i c hc⟩⟩
  intro j hj
  rcases Nat.lt_or_ge i.val p.length with hlt | hge
  · have hc := List.getElem?_eq_getElem hlt
    rw [leading_eq_coe.mpr hc] at hj
    exact h.zero_before i _ hc j (WithTop.coe_lt_coe.mp hj)
  · exact h.zero_rows i hge j

theorem rank_eq (h : A.IsEchelon p) : A.toMatrix.rank = p.length := by
  have hcard : Finset.univ.filter (fun i : Fin m => leading p i ≠ ⊤) =
      Finset.univ.filter (fun i : Fin m => i.val < p.length) := by
    simp [leading_eq_top]
  rw [h.isPivotedBy.rank_eq, hcard, Fin.card_filter_val_lt, min_eq_right h.length_le]

end IsEchelon

end Grid

theorem RowOp.rank_applyAll {ops : List (RowOp m)} (h : ∀ op ∈ ops, op.Invertible)
    (A : Grid m n) : (applyAll ops A).toMatrix.rank = A.toMatrix.rank := by
  have hunit : IsUnit (matrix ops).det := by
    rw [← Matrix.isUnit_iff_isUnit_det]
    exact IsUnit.of_mul_eq_one_right _ (matrix_undo_mul h)
  rw [toMatrix_applyAll, Matrix.rank_mul_eq_right_of_isUnit_det _ _ hunit]

theorem Elimination.Eliminates.rank_eq {A : Grid m n} {mode : Mode} {E : Elimination m n}
    (h : Eliminates A mode E) : E.rank = A.toMatrix.rank := by
  rw [← RowOp.rank_applyAll h.replays.invertible A, h.replays.replay, h.isEchelon.rank_eq]
  rfl

namespace Mat

theorem rank_eq (A : Mat) : A.rank = .ok A.grid.toMatrix.rank := by
  obtain ⟨E, hE⟩ := Elimination.exists_eliminates A.grid .echelon
  rw [rank, eliminate, hE.eliminate_eq, ← hE.rank_eq]
  rfl

theorem nullity_eq (A : Mat) : A.nullity = .ok (A.cols - A.grid.toMatrix.rank) := by
  rw [nullity, rank_eq]
  rfl

end Mat

end ExactLinear
