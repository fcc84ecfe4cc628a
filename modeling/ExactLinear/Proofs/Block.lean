import ExactLinear.Proofs.Fitting
import ExactLinear.Proofs.Selection
import ExactLinear.Proofs.Span

/- Blocks and transposes. Two matrices side by side are the blocks that one gets back by
   their columns, and a product with such a pair is a pair of products. Transposing
   exchanges rows and columns, in whatever way an operation comes by them: the factors
   of a product, and what is selected. -/
namespace ExactLinear

/-! Grids. -/

namespace Grid
variable {m n k : Nat}

@[simp] theorem get_transpose (A : Grid m n) (i : Fin n) (j : Fin m) :
    A.transpose.get i j = A.get j i := by
  simp [transpose]

theorem transpose_selectRows (A : Grid m n) (js : List (Fin n)) :
    (A.transpose.selectRows js).transpose = A.selectColumns js := by
  apply ext_get
  intro i j
  simp

theorem leftBlock_augment (A : Grid m n) (B : Grid m k) :
    (ofFn fun i (j : Fin n) => (A.augment B).get i ⟨0 + j, by omega⟩) = A := by
  apply ext_get
  intro i j
  simp [get_augment]

theorem rightBlock_augment (A : Grid m n) (B : Grid m k) :
    (ofFn fun i (j : Fin k) => (A.augment B).get i ⟨n + j, by omega⟩) = B := by
  apply ext_get
  intro i j
  simp [get_augment]

end Grid

/-! Matrices. -/

namespace Mat
variable (A B C : Mat)

theorem transpose_transpose : A.transpose.transpose = A := by
  simp only [transpose, Grid.transpose_transpose]

theorem agree_transpose_mul :
    Agree (B.rows = A.cols) (B.transpose.mul A.transpose) ((A.mul B).map fun P => P.transpose) := by
  have hleft := B.transpose.hasShape.gives_mul A.transpose.hasShape
  have hright := (A.hasShape.gives_mul B.hasShape).map fun P => P.transpose
  apply (hleft.congr eq_comm).agree hright
  intro h
  obtain ⟨m, k, hm, hk, G⟩ := A
  obtain ⟨k', n, hk', hn, H⟩ := B
  obtain rfl : k' = k := h
  simp only [transpose, mul_mk, Except.map, Grid.transpose_mul]

theorem agree_mul_augment :
    Agree (B.rows = A.cols ∧ C.rows = A.cols)
      ((B.augment C).bind fun J => A.mul J)
      ((A.mul B).bind fun P => (A.mul C).bind fun Q => P.augment Q) := by
  have hleft := (B.hasShape.gives_augment C.hasShape).bind fun J hJ => A.hasShape.gives_mul hJ
  have hright := (A.hasShape.gives_mul B.hasShape).bind fun P hP =>
    (A.hasShape.gives_mul C.hasShape).bind fun Q hQ => hP.gives_augment hQ
  apply (hleft.congr (by omega)).agree (hright.congr (by omega))
  intro h
  obtain ⟨m, k, hm, hk, G⟩ := A
  obtain ⟨k', n, hk', hn, H⟩ := B
  obtain ⟨k'', l, hk'', hl, K⟩ := C
  obtain ⟨rfl, rfl⟩ : k' = k ∧ k'' = k := h
  simp only [augment_mk, mul_mk, Except.bind, Grid.mul_augment]

/-- The columns of two matrices side by side are those of the first and then those of the
second. -/
theorem gives_augment_blocks :
    Gives (B.rows = A.rows) (A.augment B) fun J => J.cols = A.cols + B.cols ∧
      J.columnsAt (List.range' 0 A.cols) = .ok A ∧
      J.columnsAt (List.range' A.cols B.cols) = .ok B := by
  refine ⟨fun h => ?_, (A.hasShape.gives_augment B.hasShape).refusal⟩
  obtain ⟨m, n, hm, hn, G⟩ := A
  obtain ⟨m', k, hm', hk, H⟩ := B
  obtain rfl : m' = m := h
  refine ⟨_, augment_mk G H, rfl, ?_, ?_⟩
  · rw [columnsAt_range' _ hn (by simp)]
    simp only [Grid.leftBlock_augment]
  · rw [columnsAt_range' _ hk (by simp)]
    simp only [Grid.rightBlock_augment]

/-- Columns are selected as rows are of the transpose. -/
theorem columnsAt_eq_ok_iff_rowsAt {js : List Nat} {S : Mat} :
    A.columnsAt js = .ok S ↔ ∃ T, A.transpose.rowsAt js = .ok T ∧ T.transpose = S := by
  have hselect : ∀ (is : List (Fin A.cols)) (h : is ≠ []),
      (A.transpose.selectRows is h).transpose = A.selectColumns is h := by
    intro is h
    exact congrArg (Mat.mk _ _ _ _) (A.grid.transpose_selectRows is)
  rw [columnsAt_eq_ok_iff]
  simp only [rowsAt_eq_ok_iff]
  refine ⟨?_, ?_⟩
  · intro h
    obtain ⟨is, hne, rfl, rfl⟩ := h
    exact ⟨_, ⟨is, hne, rfl, rfl⟩, hselect is hne⟩
  · intro h
    obtain ⟨_, ⟨is, hne, rfl, rfl⟩, rfl⟩ := h
    exact ⟨is, hne, rfl, hselect is hne⟩

/-- The laws of blocks and transposes, for matrices of any shapes. Transposing twice changes
nothing. The transpose of a product is the product of the transposes in the other order, of which
one is there exactly if the other is. Two matrices side by side, which is refused exactly if their
heights differ, have the two as the ranges of columns that each takes, unless a range has more
numbers than can be listed. A product with two matrices side by side is their products side by
side. And columns are selected, in any order and any number of times, as rows are of the transpose,
which takes a list with a member all of whose members are numbers of columns. -/
theorem block_laws :
    A.transpose.transpose = A ∧
    Agree (B.rows = A.cols) (B.transpose.mul A.transpose) ((A.mul B).map fun P => P.transpose) ∧
    (Gives (B.rows = A.rows) (A.augment B) fun J =>
      J.columnsAt (List.range' 0 A.cols) = .ok A ∧
      J.columnsAt (List.range' A.cols B.cols) = .ok B ∧
      J.columnRange 0 A.cols =
        (if Limit.indices < A.cols then .error (.tooMany A.cols) else .ok A) ∧
      J.columnRange A.cols (A.cols + B.cols) =
        if Limit.indices < B.cols then .error (.tooMany B.cols) else .ok B) ∧
    Agree (B.rows = A.cols ∧ C.rows = A.cols)
      ((B.augment C).bind fun J => A.mul J)
      ((A.mul B).bind fun P => (A.mul C).bind fun Q => P.augment Q) ∧
    ∀ js, ((∃ S, A.columnsAt js = .ok S) ↔ js ≠ [] ∧ ∀ j ∈ js, j < A.cols) ∧
      ∀ S, A.columnsAt js = .ok S ↔ ∃ T, A.transpose.rowsAt js = .ok T ∧ T.transpose = S := by
  refine ⟨A.transpose_transpose, A.agree_transpose_mul B, ?_, A.agree_mul_augment B C, ?_⟩
  · refine (A.gives_augment_blocks B).mono fun J hJ => ?_
    obtain ⟨hcols, hleft, hright⟩ := hJ
    refine ⟨hleft, hright, ?_, ?_⟩
    · rw [J.columnRange_eq (by omega), Nat.sub_zero, hleft]
    · rw [J.columnRange_eq (by omega), Nat.add_sub_cancel_left, hright]
  · exact fun js => ⟨A.exists_columnsAt_iff, fun S => A.columnsAt_eq_ok_iff_rowsAt⟩

end Mat

end ExactLinear
