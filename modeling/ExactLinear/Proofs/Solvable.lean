import ExactLinear.Mat.Space
import ExactLinear.Proofs.Elimination.Modes
import ExactLinear.Proofs.Invertible

/- Which linear systems have a solution. One system has one exactly if elimination
   finds no pivot in its right-hand side, since that is so exactly if the right-hand
   side is a combination of the other columns. Systems with the same coefficients
   have solutions, all of them, exactly if their right-hand sides add nothing to the
   rank of the coefficients (`Grid.rank_augment_eq_iff`). -/
namespace ExactLinear

open scoped Matrix

variable {m n k : Nat}

/-! One right-hand side. -/

/-- The greatest member of an increasing list is its last. -/
theorem getLast?_eq_some_iff_of_le {p : List (Fin n)} (hp : p.Pairwise (· < ·)) {c : Fin n}
    (hc : ∀ j, j ≤ c) : p.getLast? = some c ↔ c ∈ p := by
  refine ⟨List.mem_of_getLast?, ?_⟩
  intro hmem
  rcases List.eq_nil_or_concat p with rfl | ⟨front, last, rfl⟩
  · exact absurd hmem List.not_mem_nil
  · rw [List.concat_eq_append] at hmem hp ⊢
    rcases List.mem_append.mp hmem with hfront | hlast
    · have hlt := (List.pairwise_append.mp hp).2.2 c hfront last (List.mem_singleton_self last)
      exact absurd (hc last) (not_le.mpr hlt)
    · rw [List.mem_singleton.mp hlast]
      simp

namespace Mat

theorem dependent_lastColumn_iff (M : Mat) :
    M.grid.Dependent M.lastColumn ↔
      ∃ x : Grid (M.cols - 1) 1, M.coefficients.mul x = M.rightHandSide := by
  obtain ⟨m, n, hm, hn, G⟩ := M
  obtain ⟨n, rfl⟩ := Nat.exists_eq_succ_of_ne_zero hn.ne'
  -- The factor of the last column itself is zero, so the sums are over the columns before it.
  have hsum : ∀ (x : Fin (n + 1) → Scalar) (i : Fin m), x (Fin.last n) = 0 →
      (G.toMatrix *ᵥ x) i = ∑ j : Fin n, G.get i j.castSucc * x j.castSucc := by
    intro x i hx
    show ∑ j, G.get i j * x j = _
    rw [Fin.sum_univ_castSucc, hx, mul_zero, add_zero]
  refine ⟨?_, ?_⟩
  · rintro ⟨x, hx, hcol⟩
    refine ⟨Grid.ofFn fun j _ => x j.castSucc, ?_⟩
    apply Grid.ext_get
    intro i j
    rw [Grid.get_mul, get_rightHandSide]
    simp only [get_coefficients, Grid.get_ofFn]
    exact (hsum x i (hx _ le_rfl)).symm.trans (congrFun hcol i)
  · rintro ⟨X, hX⟩
    refine ⟨Fin.snoc (fun j => X.get j 0) 0, ?_, ?_⟩
    · intro j hj
      obtain rfl : j = Fin.last n := le_antisymm (Fin.le_last j) hj
      simp
    · funext i
      have hrow := congrArg (fun B : Grid m 1 => B.get i 0) hX
      simp only [Grid.get_mul, get_coefficients, get_rightHandSide] at hrow
      rw [hsum _ i (by simp)]
      simp only [Fin.snoc_castSucc]
      exact hrow

theorem isConsistent_eq {M : Mat} {E : Elimination M.rows M.cols}
    (hE : Elimination.Eliminates M.grid .echelon E) :
    M.isConsistent = .ok (decide (M.lastColumn ∉ E.pivots)) := by
  have hlast : E.pivots.getLast?.map Fin.val = some (M.cols - 1) ↔ M.lastColumn ∈ E.pivots := by
    rw [← getLast?_eq_some_iff_of_le hE.isEchelon.increasing M.le_lastColumn,
      Option.map_eq_some_iff]
    refine ⟨?_, ?_⟩
    · rintro ⟨c, hc, hval⟩
      rw [hc, show c = M.lastColumn from Fin.ext hval]
    · intro hc
      exact ⟨_, hc, rfl⟩
  rw [isConsistent, eliminate, hE.eliminate_eq]
  refine congrArg Except.ok ?_
  rw [Bool.eq_iff_iff, bne_iff_ne, decide_eq_true_eq, ne_eq, hlast]

/-- The question whether the system of a matrix has a solution is answered, and answered rightly.
With the right-hand side alone there is a solution only if that is zero. -/
theorem isConsistent_iff_exists_solution (M : Mat) :
    ∃ answer, M.isConsistent = .ok answer ∧
      (answer = true ↔
        ∃ x : Grid (M.cols - 1) 1, M.coefficients.mul x = M.rightHandSide) ∧
      (M.cols = 1 → (answer = true ↔ M.rightHandSide = Grid.zero M.rows 1)) := by
  obtain ⟨E, hE⟩ := Elimination.exists_eliminates M.grid .echelon
  have hanswer : decide (M.lastColumn ∉ E.pivots) = true ↔
      ∃ x : Grid (M.cols - 1) 1, M.coefficients.mul x = M.rightHandSide := by
    rw [decide_eq_true_eq, hE.mem_pivots_iff, not_not, M.dependent_lastColumn_iff]
  refine ⟨_, isConsistent_eq hE, hanswer, ?_⟩
  intro hcols
  have hempty : ∀ x : Grid (M.cols - 1) 1, M.coefficients.mul x = Grid.zero M.rows 1 := by
    intro x
    apply Grid.ext_get
    intro i j
    rw [Grid.get_mul, Grid.zero, Grid.get_ofFn]
    exact Finset.sum_eq_zero fun l _ => absurd l.isLt (by omega)
  rw [hanswer]
  refine ⟨?_, ?_⟩
  · rintro ⟨x, hx⟩
    rw [← hx, hempty]
  · intro hzero
    exact ⟨Grid.zero _ _, by rw [hempty, hzero]⟩

end Mat

/-! Several right-hand sides. -/

namespace Grid

theorem rank_le_rank_augment (A : Grid m n) (B : Grid m k) :
    A.toMatrix.rank ≤ (A.augment B).toMatrix.rank := by
  have hleft : (A.augment B).toMatrix.submatrix id (Fin.castAdd k) = A.toMatrix := by
    ext i j
    simp
  rw [← hleft]
  exact Matrix.rank_submatrix_le _ _ _

/-- Columns add nothing to the rank exactly if they are combinations of the columns there are. -/
theorem rank_augment_eq_iff (A : Grid m n) (B : Grid m k) :
    A.toMatrix.rank = (A.augment B).toMatrix.rank ↔ ∃ X : Grid n k, A.mul X = B := by
  refine ⟨?_, ?_⟩
  · intro h
    have hle : Submodule.span Scalar (Set.range A.toMatrix.col) ≤
        Submodule.span Scalar (Set.range (A.augment B).toMatrix.col) := by
      apply Submodule.span_mono
      rintro _ ⟨j, rfl⟩
      refine ⟨Fin.castAdd k j, ?_⟩
      funext i
      simp
    have hspan := Submodule.eq_of_le_of_finrank_eq hle (by
      rwa [← Matrix.rank_eq_finrank_span_cols, ← Matrix.rank_eq_finrank_span_cols])
    have hcolumn : ∀ j : Fin k, ∃ x, A.toMatrix *ᵥ x = B.toMatrix.col j := by
      intro j
      have hmem : B.toMatrix.col j ∈ Submodule.span Scalar (Set.range A.toMatrix.col) := by
        rw [hspan]
        refine Submodule.subset_span ⟨Fin.natAdd n j, ?_⟩
        funext i
        simp
      rwa [← Matrix.range_mulVecLin] at hmem
    choose x hx using hcolumn
    refine ⟨ofFn fun i j => x j i, ?_⟩
    apply ext_get
    intro i j
    rw [get_mul]
    simp only [get_ofFn]
    exact congrFun (hx j) i
  · rintro ⟨X, rfl⟩
    have hprod : A.augment (A.mul X) = A.mul ((identity n).augment X) := by
      rw [mul_augment, mul_identity]
    apply le_antisymm (rank_le_rank_augment A _)
    rw [hprod, toMatrix_mul]
    exact Matrix.rank_mul_le_left _ _

end Grid

namespace Mat

theorem rows_of_mul {A B C : Mat} (h : A.mul B = .ok C) : C.rows = A.rows := by
  rw [mul] at h
  split at h
  · cases h
    rfl
  · cases h

theorem exists_mul_eq_iff {V T : Mat} (h : T.rows = V.rows) :
    (∃ X : Mat, X.rows = V.cols ∧ X.cols = T.cols ∧ V.mul X = .ok T) ↔
      ∃ X : Grid V.cols T.cols, V.grid.mul X = T.grid.cast h rfl := by
  obtain ⟨m, n, hm, hn, G⟩ := V
  obtain ⟨m', k, hm', hk, H⟩ := T
  obtain rfl : m' = m := h
  refine ⟨?_, ?_⟩
  · rintro ⟨⟨n', k', hn', hk', X⟩, rfl, rfl, hX⟩
    have hfit : (⟨m', n', hm, hn, G⟩ : Mat).mul ⟨n', k', hn', hk', X⟩ =
        .ok ⟨m', k', hm, hk', G.mul X⟩ := dif_pos rfl
    rw [hfit] at hX
    simp only [Except.ok.injEq, mk.injEq, heq_eq_eq, true_and] at hX
    exact ⟨X, hX⟩
  · rintro ⟨X, hX⟩
    refine ⟨⟨n, k, hn, hk, X⟩, rfl, rfl, ?_⟩
    have hfit : (⟨m', n, hm, hn, G⟩ : Mat).mul ⟨n, k, hn, hk, X⟩ =
        .ok ⟨m', k, hm, hk, G.mul X⟩ := dif_pos rfl
    have hprod : G.mul X = H := hX
    rw [hfit, hprod]

end Mat

/-- Whether the columns of one matrix span those of another, case by case. The question is refused
for the shapes exactly if the numbers of rows differ; the answer is yes exactly if some matrix
times the first from the right is the second, and no exactly if the rows fit and none is. -/
theorem Family.spans_cases (V T : Mat) :
    (spans V T = .error (.shape (.lengths V.shape T.shape)) ↔ V.rows ≠ T.rows) ∧
    (spans V T = .ok true ↔
      ∃ X : Mat, X.rows = V.cols ∧ X.cols = T.cols ∧ V.mul X = .ok T) ∧
    (spans V T = .ok false ↔
      V.rows = T.rows ∧ ¬∃ X : Mat, X.rows = V.cols ∧ X.cols = T.cols ∧ V.mul X = .ok T) := by
  by_cases h : T.rows = V.rows
  · rw [Mat.spans_eq h, Mat.exists_mul_eq_iff h, ← Grid.rank_augment_eq_iff]
    simp [h]
  · have hrefused : spans V T = .error (.shape (.lengths V.shape T.shape)) :=
      if_neg fun hrows => h hrows.symm
    have hnone : ¬∃ X : Mat, X.rows = V.cols ∧ X.cols = T.cols ∧ V.mul X = .ok T := by
      rintro ⟨X, -, -, hX⟩
      exact h (Mat.rows_of_mul hX)
    rw [hrefused]
    simp [hnone, Ne.symm h]

end ExactLinear
