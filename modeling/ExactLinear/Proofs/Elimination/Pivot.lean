import ExactLinear.Proofs.Elimination.Clearing

/- One pivot of the pass down, without its log and without its failures. The
   operations for it are told by the grid before them (`pivoting`), and with a
   nonzero entry to start from none of its divisions fails (`pivotAt_eq`). The
   rows above the pivot row stay, the pivot row is the row that was found with
   its pivot scaled, and each row below loses its multiple of that row. -/
namespace ExactLinear

/-- What a row is multiplied by when it becomes the row of a pivot. -/
def Mode.factor : Mode → Scalar → Scalar
  | .echelon, _ => 1
  | .reduced, pivot => 1 / pivot

theorem Mode.factor_ne_zero (mode : Mode) {pivot : Scalar} (h : pivot ≠ 0) :
    mode.factor pivot ≠ 0 := by
  cases mode with
  | echelon => exact one_ne_zero
  | reduced => exact one_div_ne_zero h

namespace Elimination
variable {m n : Nat}

/-! The search for a pivot. -/

theorem pivotRow?_eq_some {A : Grid m n} {r found : Fin m} {c : Fin n}
    (h : pivotRow? A r c = some found) : r ≤ found ∧ A.get found c ≠ 0 := by
  have hfound := List.find?_some h
  simpa using hfound

theorem pivotRow?_eq_none {A : Grid m n} {r : Fin m} {c : Fin n} :
    pivotRow? A r c = none ↔ ∀ i, r ≤ i → A.get i c = 0 := by
  simp [pivotRow?, List.find?_eq_none]

/-! The operations for a pivot. -/

def swapping (r found : Fin m) : List (RowOp m) :=
  if found = r then [] else [.swap found r]

def scaling (mode : Mode) (pivot : Scalar) (r : Fin m) : List (RowOp m) :=
  if mode = .reduced ∧ pivot ≠ 1 then [.scale r (1 / pivot)] else []

/-- The operations that bring row `found` to row `r` and scale it. -/
def placing (mode : Mode) (A : Grid m n) (r found : Fin m) (c : Fin n) : List (RowOp m) :=
  swapping r found ++ scaling mode (A.get found c) r

/-- The operations that make the entry of row `found` in column `c` the pivot of row `r`. -/
def pivoting (mode : Mode) (A : Grid m n) (r found : Fin m) (c : Fin n) : List (RowOp m) :=
  placing mode A r found c ++
    Work.clearing (RowOp.applyAll (placing mode A r found c) A) r c (rowsBelow r)

/-- The state after the entry of row `found` in column `c` has become the pivot of row `r`. -/
def pivoted (mode : Mode) (E : Elimination m n) (r found : Fin m) (c : Fin n) :
    Elimination m n where
  toWork := E.toWork.recordAll (pivoting mode E.grid r found c)
  pivots := E.pivots ++ [c]
  pivotProduct := E.pivotProduct * E.grid.get found c
  rowSwaps := E.rowSwaps + if found = r then 0 else 1

theorem get_applyAll_swapping (r found : Fin m) (A : Grid m n) (i : Fin m) (j : Fin n) :
    (RowOp.applyAll (swapping r found) A).get i j = A.get (Equiv.swap found r i) j := by
  unfold swapping
  split
  · next h => rw [h, Equiv.swap_self]; rfl
  · exact RowOp.get_apply_swap found r A i j

theorem get_applyAll_scaling (mode : Mode) (pivot : Scalar) (r : Fin m) (A : Grid m n)
    (i : Fin m) (j : Fin n) :
    (RowOp.applyAll (scaling mode pivot r) A).get i j =
      if i = r then A.get i j * mode.factor pivot else A.get i j := by
  cases mode with
  | echelon => simp [scaling, Mode.factor]
  | reduced =>
    by_cases h : pivot = 1
    · simp [scaling, Mode.factor, h]
    · rw [scaling, if_pos ⟨rfl, h⟩]
      exact RowOp.get_apply_scale r (1 / pivot) A i j

theorem get_applyAll_placing (mode : Mode) (A : Grid m n) (r found : Fin m) (c : Fin n)
    (i : Fin m) (j : Fin n) :
    (RowOp.applyAll (placing mode A r found c) A).get i j =
      if i = r then A.get found j * mode.factor (A.get found c)
      else A.get (Equiv.swap found r i) j := by
  rw [placing, RowOp.applyAll_append, get_applyAll_scaling, get_applyAll_swapping]
  split
  · next h => rw [h, Equiv.swap_apply_right]
  · rfl

theorem normalize_eq (mode : Mode) {pivot : Scalar} (h : pivot ≠ 0) (r : Fin m)
    (w : Work m n) : normalize mode pivot r w = .ok (w.recordAll (scaling mode pivot r)) := by
  rw [normalize, scaling, Scalar.reciprocal_of_ne_zero h]
  split <;> rfl

theorem pivotAt_eq (mode : Mode) (E : Elimination m n) (r : Fin m) {found : Fin m} {c : Fin n}
    (h : E.grid.get found c ≠ 0) :
    E.pivotAt mode r found c = .ok (E.pivoted mode r found c) := by
  have hplaced : (if found = r then E.toWork else E.record (.swap found r)) =
      E.toWork.recordAll (swapping r found) := by
    unfold swapping
    split <;> rfl
  have hpivot : (E.toWork.recordAll (swapping r found)).grid.get r c = E.grid.get found c := by
    rw [Work.grid_recordAll, get_applyAll_swapping, Equiv.swap_apply_right]
  have hscaled : (E.toWork.recordAll (placing mode E.grid r found c)).grid.get r c ≠ 0 := by
    rw [Work.grid_recordAll, get_applyAll_placing, if_pos rfl]
    exact mul_ne_zero h (mode.factor_ne_zero h)
  have hbelow : r ∉ rowsBelow r := by simp
  simp only [pivotAt, hplaced, hpivot, normalize_eq mode h, ← Work.recordAll_append]
  rw [Except.bind, ← placing, Work.clearColumn_eq hscaled hbelow (nodup_rowsBelow r),
    ← Work.recordAll_append, Work.grid_recordAll]
  rfl

/-! Entries after a pivot. -/

section Entries
variable (mode : Mode) (E : Elimination m n) {r found : Fin m} (c : Fin n)

theorem get_pivoted (hpivot : E.grid.get found c ≠ 0) (i : Fin m) (j : Fin n) :
    (E.pivoted mode r found c).grid.get i j =
      if i = r then E.grid.get found j * mode.factor (E.grid.get found c)
      else if r < i then
        E.grid.get (Equiv.swap found r i) j -
          E.grid.get (Equiv.swap found r i) c / E.grid.get found c * E.grid.get found j
      else E.grid.get (Equiv.swap found r i) j := by
  have hfactor := mode.factor_ne_zero hpivot
  have hbelow : r ∉ rowsBelow r := by simp
  unfold pivoted pivoting
  rw [Work.grid_recordAll, RowOp.applyAll_append,
    Work.get_applyAll_clearing _ _ _ hbelow (nodup_rowsBelow r)]
  simp only [get_applyAll_placing, mem_rowsBelow, if_pos]
  by_cases hi : i = r
  · simp [hi]
  · simp only [if_neg hi]
    split
    · -- The factor is in the pivot and in the row that is subtracted, and it cancels.
      field_simp
    · rfl

theorem get_pivoted_of_lt (hpivot : E.grid.get found c ≠ 0) (hle : r ≤ found) {i : Fin m}
    (hi : i < r) (j : Fin n) : (E.pivoted mode r found c).grid.get i j = E.grid.get i j := by
  rw [get_pivoted mode E c hpivot, if_neg hi.ne, if_neg hi.asymm,
    Equiv.swap_apply_of_ne_of_ne (hi.trans_le hle).ne hi.ne]

theorem get_pivoted_self (hpivot : E.grid.get found c ≠ 0) (j : Fin n) :
    (E.pivoted mode r found c).grid.get r j =
      E.grid.get found j * mode.factor (E.grid.get found c) := by
  rw [get_pivoted mode E c hpivot, if_pos rfl]

theorem get_pivoted_of_gt (hpivot : E.grid.get found c ≠ 0) {i : Fin m} (hi : r < i)
    (j : Fin n) :
    (E.pivoted mode r found c).grid.get i j =
      E.grid.get (Equiv.swap found r i) j -
        E.grid.get (Equiv.swap found r i) c / E.grid.get found c * E.grid.get found j := by
  rw [get_pivoted mode E c hpivot, if_neg hi.ne', if_pos hi]

end Entries

end Elimination

end ExactLinear
