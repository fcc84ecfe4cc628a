import ExactLinear.Proofs.Span

/- The columns that stand for the column space: those in which elimination has a
   pivot, which are those that are no combination of the columns before them. Every
   other column is a combination of these, with the entries of the reduced form as
   the factors (`Eliminates.selectColumns_mul`), so they span the same space, and
   their number, the rank, makes them independent. -/
namespace ExactLinear

variable {m n : Nat}

namespace Elimination.Eliminates
variable {A : Grid m n} {E : Elimination m n}

/-- The pivot columns of a grid, combined as the reduced form tells, are its columns. -/
theorem selectColumns_mul (h : Eliminates A .reduced E) :
    (A.selectColumns E.pivots).mul
      (Grid.ofFn fun l c => E.grid.get (Fin.castLE h.isReduced.length_le l) c) = A := by
  apply Grid.ext_get
  intro i c
  -- The null vectors of the grid are those of its reduced form, so both have the same relations.
  have hsum := h.isReduced.get_eq_sum (fun x => (h.sameNull x).mpr) i c
  rw [Grid.get_mul, hsum]
  apply Finset.sum_congr rfl
  intro l _
  rw [Grid.get_ofFn, Grid.get_selectColumns, mul_comm]
  rfl

theorem columnSpan_selectColumns (h : Eliminates A .reduced E) :
    (A.selectColumns E.pivots).columnSpan = A.columnSpan := by
  apply le_antisymm
  · apply Submodule.span_mono
    apply Set.range_subset_iff.mpr
    intro l
    refine ⟨E.pivots.get l, ?_⟩
    ext i
    simp
  · exact Grid.columnSpan_le_iff.mpr ⟨_, h.selectColumns_mul⟩

theorem linearIndependent_selectColumns (h : Eliminates A .reduced E) :
    LinearIndependent Scalar (A.selectColumns E.pivots).toMatrix.col := by
  rw [Grid.linearIndependent_col_iff, ← Grid.finrank_columnSpan, h.columnSpan_selectColumns,
    Grid.finrank_columnSpan, ← h.rank_eq]
  rfl

/-- Only a grid of zeros has no pivot. -/
theorem pivots_eq_nil_iff {mode : Mode} (h : Eliminates A mode E) :
    E.pivots = [] ↔ A = Grid.zero m n := by
  rw [← Grid.rank_eq_zero_iff, ← h.rank_eq, rank, List.length_eq_zero_iff]

theorem rank_pos {mode : Mode} (h : Eliminates A mode E) (hA : A ≠ Grid.zero m n) : 0 < E.rank := by
  apply List.length_pos_iff.mpr
  intro hnil
  exact hA (h.pivots_eq_nil_iff.mp hnil)

end Elimination.Eliminates

/-- The column space of a matrix of zeros is given by one zero column. That of any other matrix is
given by those of its columns, in order, that are no combination of the columns before them; they
are independent, their number is the rank, and they span what all the columns span. The span of
the matrix as a family is the same. -/
theorem Mat.columnSpace_cases (A : Mat) :
    Family.span [A] = A.columnSpace ∧
    ((A.grid = Grid.zero A.rows A.cols ∧
        A.columnSpace = .ok (zero A.rows 1 A.rows_pos Nat.one_pos)) ∨
      (A.grid ≠ Grid.zero A.rows A.cols ∧
        ∃ (js : List (Fin A.cols)) (h : js ≠ []),
          A.columnSpace = .ok (A.selectColumns js h) ∧
          js.Pairwise (· < ·) ∧
          (∀ c, c ∈ js ↔ ¬A.grid.Dependent c) ∧
          LinearIndependent Scalar (A.selectColumns js h).grid.toMatrix.col ∧
          A.rank = .ok (A.selectColumns js h).cols ∧
          (A.selectColumns js h).grid.columnSpan = A.grid.columnSpan)) := by
  obtain ⟨E, hE⟩ := Elimination.exists_eliminates A.grid .reduced
  have hrun : A.columnSpace = .ok (if h : E.pivots = [] then zero A.rows 1 A.rows_pos Nat.one_pos
      else A.selectColumns E.pivots h) := by
    rw [columnSpace, eliminate, hE.eliminate_eq]
    rfl
  have hrank : A.rank = .ok E.pivots.length := by
    rw [rank_eq, ← hE.rank_eq]
    rfl
  refine ⟨rfl, ?_⟩
  by_cases h : E.pivots = []
  · left
    exact ⟨hE.pivots_eq_nil_iff.mp h, by rw [hrun, dif_pos h]⟩
  · right
    refine ⟨fun hzero => h (hE.pivots_eq_nil_iff.mpr hzero), E.pivots, h, ?_⟩
    rw [hrun, dif_neg h]
    exact ⟨rfl, hE.isReduced.increasing, fun _ => hE.mem_pivots_iff,
      hE.linearIndependent_selectColumns, hrank, hE.columnSpan_selectColumns⟩

end ExactLinear
