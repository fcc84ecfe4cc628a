import ExactLinear.Proofs.Determinant

/- The two modes of elimination, side by side. A pass down finds its pivots in the
   rows that have none yet, and those rows are the same in both modes: the factor
   that a pivot row is scaled by cancels in every row that is cleared with it. So
   two passes over one grid stay in step (`Descends.exists_inStep`) and report the
   same pivots, the same product of pivots and the same number of swaps.

   In echelon mode pivots keep their values, and the product that is reported is
   that of the entries at the pivots (`Descends.pivotProduct_eq`).

   Which columns have a pivot can be said without elimination: those that are no
   combination of the columns before them (`Eliminates.mem_pivots_iff`). -/
namespace ExactLinear

variable {m n k : Nat}

namespace Elimination

/-- That two passes down report the same so far and have the same rows without a pivot before
them. -/
structure InStep (E F : Elimination m n) : Prop where
  pivots : E.pivots = F.pivots
  pivotProduct : E.pivotProduct = F.pivotProduct
  rowSwaps : E.rowSwaps = F.rowSwaps
  below : ∀ i : Fin m, E.pivots.length ≤ i.val → ∀ j, E.grid.get i j = F.grid.get i j

namespace InStep
variable {E F : Elimination m n} {r found : Fin m} {c : Fin n}

theorem refl (E : Elimination m n) : InStep E E := ⟨rfl, rfl, rfl, fun _ _ _ => rfl⟩

theorem pivotRow?_eq (h : InStep E F) (hr : r.val = E.pivots.length) (c : Fin n) :
    pivotRow? E.grid r c = pivotRow? F.grid r c := by
  unfold pivotRow?
  congr 1
  funext i
  by_cases hi : r ≤ i
  · rw [h.below i (hr ▸ hi)]
  · simp [hi]

/-- The next row to get a pivot is the same. -/
theorem nextRow_eq (h : InStep E F) (hE : E.pivots.length < m) (hF : F.pivots.length < m) :
    (⟨F.pivots.length, hF⟩ : Fin m) = ⟨E.pivots.length, hE⟩ :=
  Fin.ext (congrArg List.length h.pivots.symm)

/-- The entries of a row below a new pivot do not depend on the mode. -/
theorem pivoted (h : InStep E F) (mode mode' : Mode) (hr : r.val = E.pivots.length)
    (hfound : pivotRow? E.grid r c = some found) :
    InStep (E.pivoted mode r found c) (F.pivoted mode' r found c) := by
  obtain ⟨hle, hpivot⟩ := pivotRow?_eq_some hfound
  have hsame : ∀ i, r ≤ i → ∀ j, E.grid.get i j = F.grid.get i j :=
    fun i hi => h.below i (hr ▸ hi)
  have hpivot' : F.grid.get found c ≠ 0 := by rwa [← hsame found hle]
  constructor
  case pivots => exact congrArg (· ++ [c]) h.pivots
  case pivotProduct =>
    show E.pivotProduct * E.grid.get found c = F.pivotProduct * F.grid.get found c
    rw [h.pivotProduct, hsame found hle]
  case rowSwaps => exact congrArg (· + if found = r then 0 else 1) h.rowSwaps
  case below =>
    intro i hi j
    have hri : r < i := by
      rw [Fin.lt_def, hr]
      simpa [Elimination.pivoted, Nat.succ_le_iff] using hi
    have hswap := hsame _ (le_swap hle hri.le)
    rw [get_pivoted_of_gt mode E c hpivot hri, get_pivoted_of_gt mode' F c hpivot' hri, hswap,
      hswap, hsame found hle, hsame found hle]

end InStep

/-- Whatever the modes, a pass from a state in step goes the same way. -/
theorem Descends.exists_inStep {mode : Mode} {E E' F : Elimination m n} {cs : List (Fin n)}
    (hrun : Descends mode E cs E') (mode' : Mode) (h : InStep E F) :
    ∃ F', Descends mode' F cs F' ∧ InStep E' F' := by
  induction hrun generalizing F with
  | done E => exact ⟨F, .done F, h⟩
  | full hm => exact ⟨F, .full (h.pivots ▸ hm), h⟩
  | @free E _ c _ hm hfree _ ih =>
    obtain ⟨F', hrun', h'⟩ := ih h
    have hm' : F.pivots.length < m := h.pivots ▸ hm
    refine ⟨F', .free hm' ?_ hrun', h'⟩
    rw [h.nextRow_eq hm hm', ← h.pivotRow?_eq rfl]
    exact hfree
  | @pivot E _ c _ found hm hfound _ ih =>
    have hm' : F.pivots.length < m := h.pivots ▸ hm
    have hrow := h.nextRow_eq hm hm'
    obtain ⟨F', hrun', h'⟩ := ih (h.pivoted _ mode' rfl hfound)
    refine ⟨F', .pivot hm' ?_ (hrow ▸ hrun'), h'⟩
    rw [hrow, ← h.pivotRow?_eq rfl]
    exact hfound

/-- In echelon mode the entries at the pivots are the pivots as they were found. -/
theorem Descends.pivotProduct_eq {E E' : Elimination m n} {cs : List (Fin n)}
    (hrun : Descends .echelon E cs E') (h : E.pivotProduct = E.grid.pivotEntries E.pivots) :
    E'.pivotProduct = E'.grid.pivotEntries E'.pivots := by
  induction hrun with
  | done E => exact h
  | full _ => exact h
  | free _ _ _ ih => exact ih h
  | @pivot E _ c _ found hm hfound _ ih =>
    apply ih
    rw [pivotEntries_pivoted .echelon E hm hfound, ← h, Mode.factor, mul_one]
    rfl

namespace Eliminates
variable {A : Grid m n} {E : Elimination m n}

theorem pivotProduct_eq (h : Eliminates A .echelon E) :
    E.pivotProduct = E.grid.pivotEntries E.pivots := by
  cases h with
  | echelon down =>
    apply down.pivotProduct_eq
    simp [start, Grid.pivotEntries, Grid.pivotEntry]

/-- What elimination in echelon mode reports, it reports in reduced mode too. -/
theorem exists_reduced (h : Eliminates A .echelon E) :
    ∃ R, Eliminates A .reduced R ∧ R.pivots = E.pivots ∧ R.pivotProduct = E.pivotProduct ∧
      R.rowSwaps = E.rowSwaps := by
  cases h with
  | echelon down =>
    obtain ⟨D, hdown, hstep⟩ := down.exists_inStep .reduced (.refl _)
    obtain ⟨w, up, _⟩ := exists_raised hdown
    exact ⟨_, .reduced hdown up, hstep.pivots.symm, hstep.pivotProduct.symm, hstep.rowSwaps.symm⟩

end Eliminates

end Elimination

/-! Pivot columns. -/

theorem Grid.SameNull.dependent_iff {A : Grid m n} {B : Grid k n} (h : Grid.SameNull A B)
    {c : Fin n} : A.Dependent c ↔ B.Dependent c :=
  ⟨fun hA => hA.of_null fun x => (h x).mp, fun hB => hB.of_null fun x => (h x).mpr⟩

namespace Elimination.Eliminates
variable {A : Grid m n} {E : Elimination m n} {c : Fin n}

/-- In reduced mode the grid that is left tells the combination. -/
theorem mem_pivots_of_not_dependent (h : Eliminates A .reduced E) (hc : ¬A.Dependent c) :
    c ∈ E.pivots := by
  by_contra hnot
  exact hc (h.sameNull.dependent_iff.mpr (h.isReduced.dependent hnot))

theorem mem_pivots_iff {mode : Mode} (h : Eliminates A mode E) :
    c ∈ E.pivots ↔ ¬A.Dependent c := by
  refine ⟨?_, ?_⟩
  · intro hc
    rw [h.sameNull.dependent_iff]
    exact h.isEchelon.not_dependent hc
  · intro hc
    cases mode with
    | reduced => exact h.mem_pivots_of_not_dependent hc
    | echelon =>
      obtain ⟨R, hR, hpivots, -⟩ := h.exists_reduced
      exact hpivots ▸ hR.mem_pivots_of_not_dependent hc

end Elimination.Eliminates

/-- Elimination succeeds in both modes. In echelon mode it ends in an echelon form, with zeros
below every pivot, and reports the product of the pivots; in reduced mode it reports the same
pivot columns, the same product and the same number of swaps, and ends in a reduced form with its
ones where the pivots of the echelon form are. -/
theorem Mat.eliminate_modes (A : Mat) :
    ∃ E R, A.eliminate .echelon = .ok E ∧ A.echelon = .ok (A.withGrid E.grid) ∧
      A.eliminate .reduced = .ok R ∧
      E.grid.IsEchelon E.pivots ∧
      (∀ (i : Fin A.rows) (c : Fin A.cols), E.pivots[i.val]? = some c →
        ∀ x, i < x → E.grid.get x c = 0) ∧
      E.pivotProduct = E.grid.pivotEntries E.pivots ∧
      R.pivots = E.pivots ∧ R.pivotProduct = E.pivotProduct ∧ R.rowSwaps = E.rowSwaps ∧
      R.grid.IsReduced E.pivots := by
  obtain ⟨E, hE⟩ := Elimination.exists_eliminates A.grid .echelon
  obtain ⟨R, hR, hpivots, hproduct, hswaps⟩ := hE.exists_reduced
  have hechelon : A.echelon = .ok (A.withGrid E.grid) := by
    rw [echelon, eliminate, hE.eliminate_eq]
    rfl
  refine ⟨E, R, hE.eliminate_eq, hechelon, hR.eliminate_eq, hE.isEchelon, ?_, hE.pivotProduct_eq,
    hpivots, hproduct, hswaps, hpivots ▸ hR.isReduced⟩
  intro i c hc x hx
  exact hE.isEchelon.zero_below hc hx

end ExactLinear
