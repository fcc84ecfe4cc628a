import ExactLinear.Proofs.CanonicalForm
import ExactLinear.Proofs.ColumnSpace

/- The rows that stand for the row space: the first rows of the reduced form, as
   many as there are pivots. Nothing is lost with the rows after them, which are
   zero (`rowSpan_topRows`), and as their number is the rank they are independent.
   They depend on the row space alone: equal row spaces mean equal null vectors, and
   those determine the rows of a reduced form, whatever the number of rows was that
   it started from. -/
namespace ExactLinear

variable {m n k : Nat}

namespace Grid

/-- The first `k` rows. -/
def topRows (A : Grid m n) (k : Nat) (h : k ≤ m) : Grid k n := ofFn fun i j => A.get (i.castLE h) j

@[simp] theorem get_topRows (A : Grid m n) (h : k ≤ m) (i : Fin k) (j : Fin n) :
    (A.topRows k h).get i j = A.get (i.castLE h) j := by
  simp [topRows]

/-- Rows of zeros after the first `k` add nothing to the space of these. -/
theorem rowSpan_topRows {A : Grid m n} (hk : k ≤ m)
    (h : ∀ i : Fin m, k ≤ i.val → ∀ j, A.get i j = 0) : (A.topRows k hk).rowSpan = A.rowSpan := by
  have htop : ∀ i : Fin k, (A.topRows k hk).toMatrix.row i = A.toMatrix.row (i.castLE hk) := by
    intro i
    ext j
    simp
  apply le_antisymm
  · apply Submodule.span_mono
    apply Set.range_subset_iff.mpr
    intro i
    exact ⟨_, (htop i).symm⟩
  · apply Submodule.span_le.mpr
    apply Set.range_subset_iff.mpr
    intro i
    rcases Nat.lt_or_ge i.val k with hlt | hge
    · exact Submodule.subset_span ⟨⟨i.val, hlt⟩, htop _⟩
    · have hzero : A.toMatrix.row i = 0 := funext (h i hge)
      rw [hzero]
      exact Submodule.zero_mem _

/-- The first rows of two reduced grids with the same null vectors. -/
theorem IsReduced.topRows_eq {R : Grid m n} {S : Grid k n} {p q : List (Fin n)}
    (hR : R.IsReduced p) (hS : S.IsReduced q) (h : SameNull R S) {r : Nat} (hm : r ≤ m)
    (hk : r ≤ k) : R.topRows r hm = S.topRows r hk := by
  apply ext_get
  intro i j
  rw [get_topRows, get_topRows]
  exact hR.get_eq_of_sameNull hS h rfl j

end Grid

namespace Elimination.Eliminates
variable {A : Grid m n} {E : Elimination m n}

theorem rank_le {mode : Mode} (h : Eliminates A mode E) : E.rank ≤ m := h.isEchelon.length_le

theorem rowSpan_topRows (h : Eliminates A .reduced E) :
    (E.grid.topRows E.rank h.rank_le).rowSpan = A.rowSpan :=
  (Grid.rowSpan_topRows h.rank_le h.isReduced.zero_rows).trans h.rowSpan_eq

theorem linearIndependent_topRows (h : Eliminates A .reduced E) :
    LinearIndependent Scalar (E.grid.topRows E.rank h.rank_le).toMatrix.row := by
  rw [Grid.linearIndependent_row_iff, ← Grid.finrank_rowSpan, h.rowSpan_topRows,
    Grid.finrank_rowSpan, h.rank_eq]

end Elimination.Eliminates

namespace Mat

theorem selectRows_take (A : Mat) {k : Nat} (hpos : 0 < k) (hk : k ≤ A.rows)
    (h : (List.finRange A.rows).take k ≠ []) :
    A.selectRows ((List.finRange A.rows).take k) h =
      ⟨k, A.cols, hpos, A.cols_pos, A.grid.topRows k hk⟩ := by
  have hlength : ((List.finRange A.rows).take k).length = k := by simp [hk]
  have hget : ∀ i (hi : i < ((List.finRange A.rows).take k).length),
      (((List.finRange A.rows).take k)[i]).val = i := by simp
  generalize (List.finRange A.rows).take k = is at *
  subst hlength
  simp only [selectRows, mk.injEq, heq_eq_eq, true_and]
  apply Grid.ext_get
  intro i j
  rw [Grid.get_selectRows, Grid.get_topRows]
  exact congrArg (A.grid.get · j) (Fin.ext (hget i i.isLt))

theorem rowSpace_eq_zero {A : Mat} (h : A.grid = Grid.zero A.rows A.cols) :
    A.rowSpace = .ok (zero 1 A.cols Nat.one_pos A.cols_pos) := by
  obtain ⟨E, hE⟩ := Elimination.exists_eliminates A.grid .reduced
  have htake : (List.finRange A.rows).take E.rank = [] := by
    rw [Elimination.rank, hE.pivots_eq_nil_iff.mpr h]
    rfl
  rw [rowSpace, eliminate, hE.eliminate_eq]
  exact congrArg Except.ok (dif_pos htake)

theorem rowSpace_eq_topRows {A : Mat} {E : Elimination A.rows A.cols}
    (hE : Elimination.Eliminates A.grid .reduced E) {r : Nat} (hr : E.rank = r) (hpos : 0 < r)
    (hle : r ≤ A.rows) :
    A.rowSpace = .ok ⟨r, A.cols, hpos, A.cols_pos, E.grid.topRows r hle⟩ := by
  subst hr
  have htake : (List.finRange A.rows).take E.rank ≠ [] := by
    rw [← List.length_pos_iff, List.length_take, List.length_finRange]
    exact lt_min hpos A.rows_pos
  rw [rowSpace, eliminate, hE.eliminate_eq]
  refine congrArg Except.ok ((dif_neg htake).trans ?_)
  exact selectRows_take (A.withGrid E.grid) hpos hle htake

/-- What is given for the row space spans it, zero or not. -/
theorem exists_rowSpace (A : Mat) :
    ∃ (r : Nat) (h : 0 < r) (G : Grid r A.cols),
      A.rowSpace = .ok ⟨r, A.cols, h, A.cols_pos, G⟩ ∧ G.rowSpan = A.grid.rowSpan := by
  obtain ⟨E, hE⟩ := Elimination.exists_eliminates A.grid .reduced
  by_cases h : A.grid = Grid.zero A.rows A.cols
  · refine ⟨1, Nat.one_pos, Grid.zero 1 A.cols, rowSpace_eq_zero h, ?_⟩
    rw [h, Grid.rowSpan_zero, Grid.rowSpan_zero]
  · have hpos := hE.rank_pos h
    exact ⟨E.rank, hpos, _, rowSpace_eq_topRows hE rfl hpos hE.rank_le, hE.rowSpan_topRows⟩

/-- Grids of one width whose rows span the same are given the same rows for it. -/
theorem rowSpace_eq_of_rowSpan_eq {m k n : Nat} (hm : 0 < m) (hk : 0 < k) (hn : 0 < n)
    {G : Grid m n} {H : Grid k n} (h : G.rowSpan = H.rowSpan) :
    rowSpace ⟨m, n, hm, hn, G⟩ = rowSpace ⟨k, n, hk, hn, H⟩ := by
  obtain ⟨E, hE⟩ := Elimination.exists_eliminates G .reduced
  obtain ⟨F, hF⟩ := Elimination.exists_eliminates H .reduced
  -- The reduced forms may differ in height; what they share is the null vectors.
  have hnull : Grid.SameNull E.grid F.grid :=
    hE.sameNull.symm.trans ((Grid.SameNull.of_rowSpan_eq h).trans hF.sameNull)
  have hpivots : E.pivots = F.pivots := hE.isReduced.pivots_eq hF.isReduced hnull
  have hrank : F.rank = E.rank := congrArg List.length hpivots.symm
  have hzero : G = Grid.zero m n ↔ H = Grid.zero k n := by
    rw [← hE.pivots_eq_nil_iff, ← hF.pivots_eq_nil_iff, hpivots]
  by_cases hG : G = Grid.zero m n
  · have hA := rowSpace_eq_zero (A := ⟨m, n, hm, hn, G⟩) hG
    have hB := rowSpace_eq_zero (A := ⟨k, n, hk, hn, H⟩) (hzero.mp hG)
    exact hA.trans hB.symm
  · have hpos := hE.rank_pos hG
    have hle : E.rank ≤ k := hrank ▸ hF.rank_le
    have hA := rowSpace_eq_topRows (A := ⟨m, n, hm, hn, G⟩) hE rfl hpos hE.rank_le
    have hB := rowSpace_eq_topRows (A := ⟨k, n, hk, hn, H⟩) hF hrank hpos hle
    rw [hA, hB, hE.isReduced.topRows_eq hF.isReduced hnull hE.rank_le hle]

theorem rowSpace_eq_iff (A B : Mat) :
    A.rowSpace = B.rowSpace ↔
      ∃ h : B.cols = A.cols, A.grid.rowSpan = (B.grid.cast rfl h).rowSpan := by
  obtain ⟨m, n, hm, hn, G⟩ := A
  obtain ⟨k, n', hk, hn', H⟩ := B
  refine ⟨?_, ?_⟩
  · intro heq
    obtain ⟨r, hr, T, hA, hT⟩ := exists_rowSpace ⟨m, n, hm, hn, G⟩
    obtain ⟨r', hr', T', hB, hT'⟩ := exists_rowSpace ⟨k, n', hk, hn', H⟩
    rw [hA, hB] at heq
    simp only [Except.ok.injEq, mk.injEq] at heq
    obtain ⟨rfl, rfl, hgrid⟩ := heq
    obtain rfl := eq_of_heq hgrid
    exact ⟨rfl, hT.symm.trans hT'⟩
  · intro h
    obtain ⟨hcols, hspan⟩ := h
    have hwidth : n' = n := hcols
    subst hwidth
    exact rowSpace_eq_of_rowSpan_eq hm hk hn hspan

/-- The row space of a matrix of zeros is given by one zero row. That of any other matrix is given
by independent rows, as many as its rank, that span what its rows span. Two matrices are given the
same rows exactly if they have the same number of columns and their rows span the same. -/
theorem rowSpace_cases (A : Mat) :
    ((A.grid = Grid.zero A.rows A.cols ∧
        A.rowSpace = .ok (zero 1 A.cols Nat.one_pos A.cols_pos)) ∨
      (A.grid ≠ Grid.zero A.rows A.cols ∧
        ∃ (r : Nat) (h : 0 < r) (G : Grid r A.cols),
          A.rowSpace = .ok ⟨r, A.cols, h, A.cols_pos, G⟩ ∧
          LinearIndependent Scalar G.toMatrix.row ∧
          A.rank = .ok r ∧
          G.rowSpan = A.grid.rowSpan)) ∧
    ∀ B : Mat, A.rowSpace = B.rowSpace ↔
      ∃ h : B.cols = A.cols, A.grid.rowSpan = (B.grid.cast rfl h).rowSpan := by
  obtain ⟨E, hE⟩ := Elimination.exists_eliminates A.grid .reduced
  refine ⟨?_, A.rowSpace_eq_iff⟩
  by_cases h : A.grid = Grid.zero A.rows A.cols
  · left
    exact ⟨h, rowSpace_eq_zero h⟩
  · right
    have hpos := hE.rank_pos h
    have hrank : A.rank = .ok E.rank := by rw [rank_eq, ← hE.rank_eq]
    exact ⟨h, E.rank, hpos, _, rowSpace_eq_topRows hE rfl hpos hE.rank_le,
      hE.linearIndependent_topRows, hrank, hE.rowSpan_topRows⟩

end Mat

end ExactLinear
