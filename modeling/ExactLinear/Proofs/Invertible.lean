import ExactLinear.Family
import ExactLinear.Proofs.Determinant
import ExactLinear.Proofs.Inverse
import ExactLinear.Proofs.Rank
import Mathlib.Tactic.TFAE

/- What can be asked of a square matrix to learn whether it has an inverse. The
   questions run different eliminations: of the matrix in either mode, of the
   matrix with the identity beside it, and of that in the other mode. All come down
   to whether the determinant of the grid is zero. -/
namespace ExactLinear

open scoped Matrix

variable {n k : Nat}

namespace Grid
variable {A : Grid n n} {p : List (Fin n)}

theorem IsEchelon.det_ne_zero_iff (h : A.IsEchelon p) : A.toMatrix.det ≠ 0 ↔ p.length = n := by
  refine ⟨?_, ?_⟩
  · intro hdet
    by_contra hne
    exact hdet (h.det_of_lt (Nat.lt_of_le_of_ne h.length_le hne))
  · intro hfull
    rw [h.det_of_full hfull, pivotEntries, Finset.prod_ne_zero_iff]
    intro i _
    have hi := List.getElem?_eq_getElem (show i.val < p.length by omega)
    rw [pivotEntry, hi]
    exact h.pivot_ne_zero i _ hi

/-- A reduced form is the identity as soon as every row has a pivot. -/
theorem IsReduced.eq_identity_iff (h : A.IsReduced p) : A = identity n ↔ p.length = n := by
  refine ⟨?_, ?_⟩
  · rintro rfl
    rw [← h.toIsEchelon.det_ne_zero_iff, toMatrix_identity, Matrix.det_one]
    exact one_ne_zero
  · intro hfull
    obtain rfl := h.toIsEchelon.pivots_eq_finRange hfull
    apply ext_get
    intro i j
    have hj : (List.finRange n)[j.val]? = some j := by simp
    rw [identity, get_ofFn]
    split
    · next hij => rw [hij, h.pivot_one j j hj]
    · next hij => rw [h.pivot_alone j j hj i hij]

theorem exists_mul_eq_identity_iff (A : Grid n n) :
    (∃ X, A.mul X = identity n) ↔ A.toMatrix.det ≠ 0 := by
  refine ⟨?_, ?_⟩
  · rintro ⟨X, hX⟩
    have hdet : A.toMatrix.det * X.toMatrix.det = 1 := by
      rw [← Matrix.det_mul, ← toMatrix_mul, hX, toMatrix_identity, Matrix.det_one]
    exact left_ne_zero_of_mul (hdet.trans_ne one_ne_zero)
  · intro hdet
    obtain ⟨X, hX⟩ := exists_toMatrix_eq A.toMatrix⁻¹
    refine ⟨X, ?_⟩
    rw [← toMatrix_inj, toMatrix_mul, hX, toMatrix_identity,
      Matrix.mul_nonsing_inv _ (isUnit_iff_ne_zero.mpr hdet)]

/-- Beside the identity no rank is missing. -/
theorem rank_augment_identity (A : Grid n k) : (A.augment (identity n)).toMatrix.rank = n := by
  have hblock : (A.augment (identity n)).toMatrix.submatrix id (Fin.natAdd k) = 1 := by
    rw [← toMatrix_identity]
    ext i j
    simp
  apply le_antisymm (Matrix.rank_le_height _)
  calc n = (1 : Matrix (Fin n) (Fin n) Scalar).rank := by rw [Matrix.rank_one, Fintype.card_fin]
    _ ≤ (A.augment (identity n)).toMatrix.rank := by
      rw [← hblock]
      exact Matrix.rank_submatrix_le _ _ _

end Grid

theorem Elimination.Eliminates.det_ne_zero_iff {A : Grid n n} {mode : Mode} {E : Elimination n n}
    (h : Eliminates A mode E) : A.toMatrix.det ≠ 0 ↔ E.rank = n := by
  have hdet := RowOp.det_applyAll h.replays.invertible A
  rw [h.replays.replay] at hdet
  rw [rank, ← h.isEchelon.det_ne_zero_iff, hdet,
    mul_ne_zero_iff_left (RowOp.detFactors_ne_zero h.replays.invertible)]

namespace Grid

theorem det_ne_zero_iff_rank {G : Grid n n} : G.toMatrix.det ≠ 0 ↔ G.toMatrix.rank = n := by
  obtain ⟨E, hE⟩ := Elimination.exists_eliminates G .echelon
  rw [hE.det_ne_zero_iff, hE.rank_eq]

end Grid

namespace Mat

theorem exists_inverse_square_iff (hn : 0 < n) (G : Grid n n) :
    (∃ B, (square hn G).inverse = .ok B) ↔ G.toMatrix.det ≠ 0 := by
  rw [← Grid.exists_mul_eq_identity_iff]
  refine ⟨?_, ?_⟩
  · intro h
    by_contra hnone
    obtain ⟨B, hB⟩ := h
    rw [inverse_of_forall_ne hn (not_exists.mp hnone)] at hB
    cases hB
  · intro h
    obtain ⟨X, hX⟩ := h
    exact ⟨_, inverse_of_mul_eq hn hX⟩

theorem isIndependent_singleton (A : Mat) :
    Family.isIndependent [A] = .ok (A.grid.toMatrix.rank == A.cols) := by
  have hrun : Family.isIndependent [A] = A.rank.map fun r => r == A.cols := rfl
  rw [hrun, rank_eq]
  rfl

theorem isBasis_square (hn : 0 < n) (G : Grid n n) :
    Family.isBasis [square hn G] = .ok (G.toMatrix.rank == n) := by
  have hrun : Family.isBasis [square hn G] =
      if (square hn G).isSquare then (square hn G).rank.map fun r => r == n else .ok false := rfl
  have hsquare : (square hn G).isSquare = true := beq_self_eq_true n
  rw [hrun, if_pos hsquare, rank_eq]
  rfl

theorem spans_eq {A T : Mat} (h : T.rows = A.rows) :
    Family.spans A T = .ok (A.grid.toMatrix.rank ==
      (A.grid.augment (T.grid.cast h rfl)).toMatrix.rank) := by
  have haugment : A.augment T = .ok ⟨A.rows, A.cols + T.cols, A.rows_pos,
      Nat.add_pos_left A.cols_pos T.cols, A.grid.augment (T.grid.cast h rfl)⟩ := dif_pos h
  rw [Family.spans, if_pos h.symm, rank_eq, haugment]
  simp only [Except.bind, rank_eq]
  rfl

theorem spans_identity (hn : 0 < n) (G : Grid n n) :
    Family.spans (square hn G) (identity n hn) = .ok (G.toMatrix.rank == n) := by
  have h : (identity n hn).rows = (square hn G).rows := rfl
  rw [spans_eq h]
  show Except.ok (G.toMatrix.rank == (G.augment (Grid.identity n)).toMatrix.rank) = _
  rw [Grid.rank_augment_identity]

/-- A square matrix, asked in eight ways whether it has an inverse. Apart from the inverse every
question has an answer, and all the answers agree. -/
theorem invertible_tfae (A : Mat) (h : A.rows = A.cols) :
    ∃ (d : Scalar) (r k : Nat) (R : Mat) (independent basis spans : Bool),
      A.determinant = .ok d ∧ A.rank = .ok r ∧ A.nullity = .ok k ∧ A.reduced = .ok R ∧
      Family.isIndependent [A] = .ok independent ∧ Family.isBasis [A] = .ok basis ∧
      Family.spans A (identity A.rows A.rows_pos) = .ok spans ∧
      [d ≠ 0, ∃ B, A.inverse = .ok B, r = A.rows, k = 0, R = identity A.rows A.rows_pos,
        independent = true, basis = true, spans = true].TFAE := by
  obtain ⟨G, hA⟩ := exists_eq_square h
  generalize A.rows_pos = hn at *
  generalize A.rows = n at *
  subst hA
  obtain ⟨E, hE⟩ := Elimination.exists_eliminates G .reduced
  refine ⟨_, _, _, _, _, _, _, determinant_of_square hn hn G, rank_eq _, nullity_eq _,
    reduced_eq hE, isIndependent_singleton _, isBasis_square hn G, spans_identity hn G, ?_⟩
  have hle : G.toMatrix.rank ≤ n := Matrix.rank_le_width _
  have hgrid : (square hn G).withGrid E.grid = identity n hn ↔ E.grid = Grid.identity n :=
    square_inj
  tfae_have 1 ↔ 2 := (exists_inverse_square_iff hn G).symm
  tfae_have 1 ↔ 3 := Grid.det_ne_zero_iff_rank
  tfae_have 3 ↔ 4 := by
    show G.toMatrix.rank = n ↔ n - G.toMatrix.rank = 0
    omega
  tfae_have 1 ↔ 5 := by
    rw [hgrid, hE.isReduced.eq_identity_iff, hE.det_ne_zero_iff]
    rfl
  tfae_have 3 ↔ 6 := beq_iff_eq.symm
  tfae_have 3 ↔ 7 := beq_iff_eq.symm
  tfae_have 3 ↔ 8 := beq_iff_eq.symm
  tfae_finish

/-- The matrix that exchanges two entries. -/
def exchange : Mat := square (show 0 < 2 by decide) (Grid.ofFn fun i j => if i = j then 0 else 1)

/-- Its determinant alone tells that its columns span everything. -/
theorem invertible_tfae_exchange :
    exchange.rows = exchange.cols ∧ exchange.determinant = .ok (-1) ∧
      Family.spans exchange (identity exchange.rows exchange.rows_pos) = .ok true := by
  have hdet : exchange.determinant = .ok (-1) := by decide +kernel
  obtain ⟨d, _, _, _, _, _, spans, hd, -, -, -, -, -, hspans, htfae⟩ := invertible_tfae exchange rfl
  obtain rfl : d = -1 := Except.ok.inj (hd.symm.trans hdet)
  have hne : (-1 : Scalar) ≠ 0 := by decide
  obtain rfl : spans = true := (htfae.out 0 7).mp hne
  exact ⟨rfl, hdet, hspans⟩

end Mat

end ExactLinear
