import ExactLinear.Proofs.Solvable

/- The spaces that the columns and the rows of a grid span. Both have the rank of
   the grid as their dimension, so a grid has independent columns exactly if its
   rank is their number, and independent rows likewise. One grid has only
   combinations of the columns of another exactly if it is a product with that from
   the left (`columnSpan_le_iff`), and of its rows exactly if it is one from the
   right (`rowSpan_le_iff`). Row operations that can be undone keep the rows'
   space, and the rows' space determines the null vectors. -/
namespace ExactLinear

open scoped Matrix

variable {m n k : Nat}

namespace Grid

/-- The combinations of the columns. -/
def columnSpan (A : Grid m n) : Submodule Scalar (Fin m → Scalar) :=
  Submodule.span Scalar (Set.range A.toMatrix.col)

/-- The combinations of the rows. -/
def rowSpan (A : Grid m n) : Submodule Scalar (Fin n → Scalar) :=
  Submodule.span Scalar (Set.range A.toMatrix.row)

/-! Transposes. -/

@[simp] theorem toMatrix_transpose (A : Grid m n) : A.transpose.toMatrix = A.toMatrixᵀ := by
  ext i j
  simp [transpose]

theorem transpose_transpose (A : Grid m n) : A.transpose.transpose = A := by
  rw [← toMatrix_inj]
  simp

theorem transpose_mul (A : Grid m n) (B : Grid n k) :
    (A.mul B).transpose = B.transpose.mul A.transpose := by
  rw [← toMatrix_inj]
  simp

theorem columnSpan_transpose (A : Grid m n) : A.transpose.columnSpan = A.rowSpan := by
  rw [columnSpan, toMatrix_transpose, Matrix.col_transpose]
  rfl

/-! Dimensions. -/

theorem finrank_columnSpan (A : Grid m n) :
    Module.finrank Scalar A.columnSpan = A.toMatrix.rank :=
  (Matrix.rank_eq_finrank_span_cols _).symm

theorem finrank_rowSpan (A : Grid m n) : Module.finrank Scalar A.rowSpan = A.toMatrix.rank :=
  (Matrix.rank_eq_finrank_span_row _).symm

theorem linearIndependent_col_iff {A : Grid m n} :
    LinearIndependent Scalar A.toMatrix.col ↔ A.toMatrix.rank = n := by
  rw [linearIndependent_iff_card_eq_finrank_span, Fintype.card_fin, eq_comm, Set.finrank,
    ← Matrix.rank_eq_finrank_span_cols]

theorem linearIndependent_row_iff {A : Grid m n} :
    LinearIndependent Scalar A.toMatrix.row ↔ A.toMatrix.rank = m := by
  rw [linearIndependent_iff_card_eq_finrank_span, Fintype.card_fin, eq_comm, Set.finrank,
    ← Matrix.rank_eq_finrank_span_row]

theorem rank_eq_zero_iff {A : Grid m n} : A.toMatrix.rank = 0 ↔ A = zero m n := by
  rw [← finrank_columnSpan, Submodule.finrank_eq_zero, columnSpan, Submodule.span_eq_bot,
    Set.forall_mem_range, ← toMatrix_inj, toMatrix_zero]
  refine ⟨?_, ?_⟩
  · intro h
    exact Matrix.ext_col h
  · intro h j
    rw [h]
    rfl

theorem rowSpan_zero : (zero m n).rowSpan = ⊥ := by
  rw [← Submodule.finrank_eq_zero, finrank_rowSpan, rank_eq_zero_iff]

/-! Combinations of columns. -/

theorem col_augment_castAdd (A : Grid m n) (B : Grid m k) (j : Fin n) :
    (A.augment B).toMatrix.col (Fin.castAdd k j) = A.toMatrix.col j := by
  ext i
  simp

theorem col_augment_natAdd (A : Grid m n) (B : Grid m k) (j : Fin k) :
    (A.augment B).toMatrix.col (Fin.natAdd n j) = B.toMatrix.col j := by
  ext i
  simp

theorem range_col_augment (A : Grid m n) (B : Grid m k) :
    Set.range (A.augment B).toMatrix.col =
      Set.range A.toMatrix.col ∪ Set.range B.toMatrix.col := by
  apply Set.Subset.antisymm
  · apply Set.range_subset_iff.mpr
    intro j
    induction j using Fin.addCases with
    | left j =>
      rw [col_augment_castAdd]
      exact .inl ⟨j, rfl⟩
    | right j =>
      rw [col_augment_natAdd]
      exact .inr ⟨j, rfl⟩
  · apply Set.union_subset
    · apply Set.range_subset_iff.mpr
      intro j
      exact ⟨_, col_augment_castAdd A B j⟩
    · apply Set.range_subset_iff.mpr
      intro j
      exact ⟨_, col_augment_natAdd A B j⟩

theorem columnSpan_augment (A : Grid m n) (B : Grid m k) :
    (A.augment B).columnSpan = A.columnSpan ⊔ B.columnSpan := by
  rw [columnSpan, range_col_augment, Submodule.span_union]
  rfl

theorem columnSpan_le_iff {A : Grid m n} {B : Grid m k} :
    B.columnSpan ≤ A.columnSpan ↔ ∃ X : Grid n k, A.mul X = B := by
  rw [← rank_augment_eq_iff, ← finrank_columnSpan, ← finrank_columnSpan, columnSpan_augment]
  refine ⟨?_, ?_⟩
  · intro h
    rw [sup_eq_left.mpr h]
  · intro h
    have hspan := Submodule.eq_of_le_of_finrank_eq (le_sup_left (b := B.columnSpan)) h
    rw [hspan]
    exact le_sup_right

/-! Combinations of rows. -/

theorem rowSpan_le_iff {A : Grid m n} {B : Grid k n} :
    B.rowSpan ≤ A.rowSpan ↔ ∃ C : Grid k m, C.mul A = B := by
  rw [← columnSpan_transpose, ← columnSpan_transpose, columnSpan_le_iff]
  refine ⟨?_, ?_⟩
  · intro h
    obtain ⟨X, hX⟩ := h
    refine ⟨X.transpose, ?_⟩
    calc X.transpose.mul A = (A.transpose.mul X).transpose := by
          rw [transpose_mul, transpose_transpose]
      _ = B := by rw [hX, transpose_transpose]
  · intro h
    obtain ⟨C, rfl⟩ := h
    exact ⟨C.transpose, (transpose_mul C A).symm⟩

theorem mulVec_eq_zero_of_rowSpan_le {A : Grid m n} {B : Grid k n} (h : B.rowSpan ≤ A.rowSpan)
    {x : Fin n → Scalar} (hx : A.toMatrix *ᵥ x = 0) : B.toMatrix *ᵥ x = 0 := by
  obtain ⟨C, rfl⟩ := rowSpan_le_iff.mp h
  rw [toMatrix_mul, ← Matrix.mulVec_mulVec, hx, Matrix.mulVec_zero]

theorem SameNull.of_rowSpan_eq {A : Grid m n} {B : Grid k n} (h : A.rowSpan = B.rowSpan) :
    SameNull A B :=
  fun _ => ⟨mulVec_eq_zero_of_rowSpan_le h.ge, mulVec_eq_zero_of_rowSpan_le h.le⟩

end Grid

/-! Row operations. -/

namespace RowOp

theorem rowSpan_applyAll_le (ops : List (RowOp m)) (A : Grid m n) :
    (applyAll ops A).rowSpan ≤ A.rowSpan := by
  apply Grid.rowSpan_le_iff.mpr
  refine ⟨applyAll ops (Grid.identity m), ?_⟩
  rw [← applyAll_mul, Grid.identity_mul]

theorem rowSpan_applyAll {ops : List (RowOp m)} (h : ∀ op ∈ ops, op.Invertible) (A : Grid m n) :
    (applyAll ops A).rowSpan = A.rowSpan := by
  apply le_antisymm (rowSpan_applyAll_le ops A)
  calc A.rowSpan = (applyAll (undo ops) (applyAll ops A)).rowSpan := by rw [applyAll_undo h]
    _ ≤ (applyAll ops A).rowSpan := rowSpan_applyAll_le _ _

end RowOp

theorem Elimination.Eliminates.rowSpan_eq {A : Grid m n} {mode : Mode} {E : Elimination m n}
    (h : Eliminates A mode E) : E.grid.rowSpan = A.rowSpan := by
  rw [← h.replays.replay, RowOp.rowSpan_applyAll h.replays.invertible]

end ExactLinear
