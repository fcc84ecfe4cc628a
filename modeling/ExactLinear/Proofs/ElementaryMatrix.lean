import ExactLinear.Proofs.Product
import ExactLinear.Proofs.RowOp
import ExactLinear.Proofs.Storage.Elimination

/- Row operations as products. A row operation is the product with what it makes of the
   identity, also when it cannot be undone, and also when it is performed in place on
   the stored entries, where the row that is changed may be the one that is read. A
   swap, a scaling by a nonzero factor and a row added to another one are undone by an
   operation of the same kind. -/
namespace ExactLinear

namespace RowOp
variable {m n : Nat}

/-- A swap undoes itself, also that of a row with itself. -/
theorem swap_apply_swap_apply (i j : Fin m) (A : Grid m n) :
    (swap i j).apply ((swap i j).apply A) = A := by
  apply Grid.ext_get
  intro x y
  rw [get_apply_swap, get_apply_swap, Equiv.swap_apply_self]

theorem swap_self_apply (i : Fin m) (A : Grid m n) : (swap i i).apply A = A := by
  apply Grid.ext_get
  intro x y
  rw [get_apply_swap, Equiv.swap_self, Equiv.refl_apply]

/-- A row operation is a product from the left. -/
theorem apply_identity_mul (op : RowOp m) (A : Grid m n) :
    (op.apply (Grid.identity m)).mul A = op.apply A := by
  rw [← apply_mul, Grid.identity_mul]

end RowOp

namespace Mat
variable (A : Mat)

/-- A matrix after a row operation. -/
def rowOp (op : RowOp A.rows) : Mat := A.withGrid (op.apply A.grid)

/-- The matrix of a row operation is what it makes of the identity. -/
theorem identity_rowOp_mul (op : RowOp A.rows) :
    ((identity A.rows A.rows_pos).rowOp op).mul A = .ok (A.rowOp op) := by
  obtain ⟨m, n, hm, hn, G⟩ := A
  show (⟨m, m, hm, hm, op.apply (Grid.identity m)⟩ : Mat).mul ⟨m, n, hm, hn, G⟩ = _
  rw [mul_mk, op.apply_identity_mul]
  rfl

theorem rowOp_rowOp {op op' : RowOp A.rows} (h : op'.apply (op.apply A.grid) = A.grid) :
    (A.rowOp op).rowOp op' = A :=
  congrArg A.withGrid h

theorem swapRows_eq_rowOp (i j : Fin A.rows) : A.swapRows i j = .ok (A.rowOp (.swap i j)) := by
  by_cases hij : i = j
  · rw [hij, swapRows, if_pos rfl, rowOp, RowOp.swap_self_apply]
    rfl
  · have hval : i.val ≠ j.val := fun h => hij (Fin.ext h)
    rw [swapRows, if_neg hval, dif_pos i.isLt, dif_pos j.isLt]
    rfl

open Storage in
/-- The copy of the stored entries that the operation is performed on is one of its grid. -/
theorem rowOp_stored (op : RowOp A.rows) :
    ((Table.ofMat A).rowOp op : Checked AlgebraError Table) = .ok (Table.ofMat (A.rowOp op)) := by
  have hperform : (Buffer.ofTable (Table.ofMat A)).perform op =
      (.ok (Buffer.ofGrid (op.apply A.grid)) : Checked AlgebraError Buffer) :=
    Buffer.perform_eq A.grid op
  rw [Table.rowOp, hperform]
  exact Table.withValues_ofMat A _

open Storage in
/-- Row operations on a matrix are elementary matrices. Each of them, whether it can be undone or
not, is the product with what it makes of the identity, and comes to the same when it is performed
in place on the stored entries. Exchanging two rows of a matrix is the swap of these rows, and
undoes itself. A scaling is undone by the reciprocal factor if the factor is not zero, and a
multiple of a row added to a different one by the negated factor. -/
theorem rowOp_laws :
    (∀ op : RowOp A.rows,
      ((identity A.rows A.rows_pos).rowOp op).mul A = .ok (A.rowOp op) ∧
      ((Table.ofMat A).rowOp op : Checked AlgebraError Table) = .ok (Table.ofMat (A.rowOp op))) ∧
    (∀ i j : Fin A.rows,
      A.swapRows i j = .ok (A.rowOp (.swap i j)) ∧ (A.rowOp (.swap i j)).rowOp (.swap i j) = A) ∧
    (∀ (i : Fin A.rows) (q : Scalar), q ≠ 0 →
      (A.rowOp (.scale i q)).rowOp (.scale i (1 / q)) = A) ∧
    ∀ (t s : Fin A.rows) (q : Scalar), t ≠ s →
      (A.rowOp (.replace t s q)).rowOp (.replace t s (-q)) = A := by
  refine ⟨?_, ?_, ?_, ?_⟩
  · exact fun op => ⟨A.identity_rowOp_mul op, A.rowOp_stored op⟩
  · exact fun i j => ⟨A.swapRows_eq_rowOp i j, A.rowOp_rowOp (RowOp.swap_apply_swap_apply i j _)⟩
  · intro i q hq
    have hscale : (RowOp.scale i q).Invertible := hq
    exact A.rowOp_rowOp (RowOp.inverse_apply_apply hscale _)
  · intro t s q hts
    have hreplace : (RowOp.replace t s q).Invertible := hts
    exact A.rowOp_rowOp (RowOp.inverse_apply_apply hreplace _)

end Mat

end ExactLinear
