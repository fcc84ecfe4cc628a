import ExactLinear.Proofs.Elimination.Replay
import Mathlib.LinearAlgebra.Matrix.Block

/- The determinant. A row operation that can be undone multiplies the determinant
   of a square grid by a factor of its own (`RowOp.detFactor`). In a run, the
   factors of the log times the product of the pivots as found are the entries at
   the pivots with the sign of the swaps (`Balanced`): a pivot that is scaled
   away changes both sides alike. At the end the grid is either triangular, with
   the pivots on the diagonal, or it has a zero row. -/
namespace ExactLinear

open scoped Matrix

variable {m n : Nat}

/-! Determinants and row operations. -/

namespace RowOp

/-- What a row operation multiplies the determinant by. -/
def detFactor : RowOp m → Scalar
  | .swap _ _ => -1
  | .scale _ q => q
  | .replace _ _ _ => 1

theorem det_apply {op : RowOp n} (h : op.Invertible) (A : Grid n n) :
    (op.apply A).toMatrix.det = op.detFactor * A.toMatrix.det := by
  cases op with
  | swap i j =>
    have hrows : ((swap i j).apply A).toMatrix = A.toMatrix.submatrix (Equiv.swap i j) id := by
      ext x y
      exact get_apply_swap i j A x y
    rw [hrows, Matrix.det_permute, Equiv.Perm.sign_swap h, detFactor]
    simp
  | scale i q =>
    have hrow : ((scale i q).apply A).toMatrix = A.toMatrix.updateRow i (q • A.toMatrix i) := by
      ext x y
      rw [Grid.toMatrix_apply, get_apply_scale, Matrix.updateRow_apply]
      split
      · next hx => rw [hx, mul_comm]; rfl
      · rfl
    rw [hrow, Matrix.det_updateRow_smul, Matrix.updateRow_eq_self, detFactor]
  | replace t s q =>
    have hrow : ((replace t s q).apply A).toMatrix =
        A.toMatrix.updateRow t (A.toMatrix t + q • A.toMatrix s) := by
      ext x y
      rw [Grid.toMatrix_apply, get_apply_replace, Matrix.updateRow_apply]
      split
      · next hx => rw [hx]; rfl
      · rfl
    rw [hrow, Matrix.det_updateRow_add_smul_self _ h, detFactor, one_mul]

theorem detFactor_ne_zero {op : RowOp m} (h : op.Invertible) : op.detFactor ≠ 0 := by
  cases op with
  | swap i j => exact neg_ne_zero.mpr one_ne_zero
  | scale i q => exact h
  | replace t s q => exact one_ne_zero

/-- The factors of the listed operations together. -/
def detFactors (ops : List (RowOp m)) : Scalar := (ops.map detFactor).prod

theorem detFactors_append (first later : List (RowOp m)) :
    detFactors (first ++ later) = detFactors first * detFactors later := by
  rw [detFactors, List.map_append, List.prod_append]
  rfl

theorem det_applyAll {ops : List (RowOp n)} (h : ∀ op ∈ ops, op.Invertible) (A : Grid n n) :
    (applyAll ops A).toMatrix.det = detFactors ops * A.toMatrix.det := by
  induction ops generalizing A with
  | nil => simp [detFactors]
  | cons op ops ih =>
    obtain ⟨hop, hops⟩ := List.forall_mem_cons.mp h
    rw [applyAll_cons, ih hops, det_apply hop, detFactors, detFactors, List.map_cons,
      List.prod_cons]
    ring

theorem detFactors_ne_zero {ops : List (RowOp m)} (h : ∀ op ∈ ops, op.Invertible) :
    detFactors ops ≠ 0 := by
  apply List.prod_ne_zero
  intro hzero
  obtain ⟨op, hop, hfactor⟩ := List.mem_map.mp hzero
  exact detFactor_ne_zero (h op hop) hfactor

end RowOp

theorem Work.detFactors_clearing (A : Grid m n) (r : Fin m) (c : Fin n) (targets : List (Fin m)) :
    RowOp.detFactors (clearing A r c targets) = 1 := by
  apply List.prod_eq_one
  intro q hq
  obtain ⟨op, hop, rfl⟩ := List.mem_map.mp hq
  obtain ⟨t, _, _, rfl⟩ := mem_clearing.mp hop
  rfl

/-! Entries at the pivots. -/

namespace Grid

/-- The entry of row `i` in its pivot column, one for a row without a pivot. -/
def pivotEntry (A : Grid m n) (p : List (Fin n)) (i : Fin m) : Scalar :=
  (p[i.val]?.map (A.get i)).getD 1

/-- The product of the entries at the pivots. -/
def pivotEntries (A : Grid m n) (p : List (Fin n)) : Scalar := ∏ i, A.pivotEntry p i

/-- With a pivot in every row of a square grid the pivots are on the diagonal. -/
theorem IsEchelon.pivots_eq_finRange {A : Grid n n} {p : List (Fin n)} (h : A.IsEchelon p)
    (hfull : p.length = n) : p = List.finRange n := by
  apply h.increasing.eq_of_mem_iff (List.pairwise_lt_finRange n)
  intro c
  have hnodup : p.Nodup := h.increasing.imp ne_of_lt
  have huniv : p.toFinset = Finset.univ := by
    rw [← Finset.card_eq_iff_eq_univ, List.toFinset_card_of_nodup hnodup, hfull, Fintype.card_fin]
  refine ⟨?_, ?_⟩
  · intro _
    exact List.mem_finRange c
  · intro _
    rw [← List.mem_toFinset, huniv]
    exact Finset.mem_univ c

theorem IsEchelon.det_of_full {A : Grid n n} {p : List (Fin n)} (h : A.IsEchelon p)
    (hfull : p.length = n) : A.toMatrix.det = A.pivotEntries p := by
  obtain rfl := h.pivots_eq_finRange hfull
  have hdiag : ∀ i : Fin n, (List.finRange n)[i.val]? = some i := fun i => by simp
  have hupper : A.toMatrix.IsUpperTriangular := by
    intro i j hij
    exact h.zero_before i i (hdiag i) j hij
  rw [Matrix.det_of_isUpperTriangular hupper, pivotEntries]
  apply Finset.prod_congr rfl
  intro i _
  rw [pivotEntry, hdiag i]
  rfl

theorem IsEchelon.det_of_lt {A : Grid n n} {p : List (Fin n)} (h : A.IsEchelon p)
    (hlt : p.length < n) : A.toMatrix.det = 0 :=
  Matrix.det_eq_zero_of_row_eq_zero ⟨p.length, hlt⟩ (h.zero_rows _ le_rfl)

end Grid

/-! The run. -/

namespace Elimination

/-- Between the log, the pivots as found, the swaps and the entries at the pivots. -/
def Balanced (E : Elimination m n) : Prop :=
  RowOp.detFactors E.operations * E.pivotProduct =
    (-1) ^ E.rowSwaps * E.grid.pivotEntries E.pivots

theorem detFactors_pivoting (mode : Mode) (A : Grid m n) (r found : Fin m) (c : Fin n) :
    RowOp.detFactors (pivoting mode A r found c) =
      (-1) ^ (if found = r then 0 else 1) * mode.factor (A.get found c) := by
  have hswap : RowOp.detFactors (swapping r found) = (-1) ^ (if found = r then 0 else 1) := by
    unfold swapping
    split <;> simp [RowOp.detFactors, RowOp.detFactor]
  have hscale : RowOp.detFactors (scaling mode (A.get found c) r) =
      mode.factor (A.get found c) := by
    cases mode with
    | echelon => simp [scaling, Mode.factor, RowOp.detFactors]
    | reduced =>
      by_cases h : A.get found c = 1
      · simp [scaling, Mode.factor, RowOp.detFactors, h]
      · simp [scaling, Mode.factor, RowOp.detFactors, RowOp.detFactor, h]
  unfold pivoting placing
  rw [RowOp.detFactors_append, RowOp.detFactors_append, hswap, hscale,
    Work.detFactors_clearing, mul_one]

/-- A new pivot adds one entry to the entries at the pivots and changes none. -/
theorem pivotEntries_pivoted (mode : Mode) (E : Elimination m n) {found : Fin m} {c : Fin n}
    (hm : E.pivots.length < m)
    (hfound : pivotRow? E.grid ⟨E.pivots.length, hm⟩ c = some found) :
    (E.pivoted mode ⟨E.pivots.length, hm⟩ found c).grid.pivotEntries
        (E.pivoted mode ⟨E.pivots.length, hm⟩ found c).pivots =
      E.grid.pivotEntries E.pivots *
        (E.grid.get found c * mode.factor (E.grid.get found c)) := by
  obtain ⟨hle, hpivot⟩ := pivotRow?_eq_some hfound
  have hentry : ∀ i : Fin m,
      (E.pivoted mode ⟨E.pivots.length, hm⟩ found c).grid.pivotEntry
          (E.pivoted mode ⟨E.pivots.length, hm⟩ found c).pivots i =
        E.grid.pivotEntry E.pivots i *
          if i = ⟨E.pivots.length, hm⟩ then
            E.grid.get found c * mode.factor (E.grid.get found c)
          else 1 := by
    intro i
    have hpivots : (E.pivoted mode ⟨E.pivots.length, hm⟩ found c).pivots = E.pivots ++ [c] := rfl
    simp only [Grid.pivotEntry, Fin.ext_iff, hpivots]
    -- A row above the new pivot, its own row, and a row below, which has no pivot.
    rcases Nat.lt_trichotomy i.val E.pivots.length with hlt | heq | hgt
    · have hi : i < ⟨E.pivots.length, hm⟩ := hlt
      rw [List.getElem?_append_left hlt, List.getElem?_eq_getElem hlt, if_neg hlt.ne, mul_one]
      exact get_pivoted_of_lt mode E c hpivot hle hi _
    · obtain rfl : i = ⟨E.pivots.length, hm⟩ := Fin.ext heq
      rw [List.getElem?_concat_length, List.getElem?_eq_none le_rfl, if_pos rfl]
      simpa using get_pivoted_self mode E c hpivot c
    · rw [List.getElem?_eq_none (by simp; omega), List.getElem?_eq_none hgt.le, if_neg hgt.ne']
      simp
  rw [Grid.pivotEntries, Finset.prod_congr rfl fun i _ => hentry i, Finset.prod_mul_distrib,
    Finset.prod_ite_eq' Finset.univ, if_pos (Finset.mem_univ _)]
  rfl

theorem Balanced.pivoted {E : Elimination m n} (h : E.Balanced) (mode : Mode) {found : Fin m}
    {c : Fin n} (hm : E.pivots.length < m)
    (hfound : pivotRow? E.grid ⟨E.pivots.length, hm⟩ c = some found) :
    (E.pivoted mode ⟨E.pivots.length, hm⟩ found c).Balanced := by
  have hops : (E.pivoted mode ⟨E.pivots.length, hm⟩ found c).operations =
      E.operations ++ pivoting mode E.grid ⟨E.pivots.length, hm⟩ found c :=
    Work.operations_recordAll _ _
  have hproduct : (E.pivoted mode ⟨E.pivots.length, hm⟩ found c).pivotProduct =
      E.pivotProduct * E.grid.get found c := rfl
  have hswaps : (E.pivoted mode ⟨E.pivots.length, hm⟩ found c).rowSwaps =
      E.rowSwaps + if found = ⟨E.pivots.length, hm⟩ then 0 else 1 := rfl
  unfold Balanced at h ⊢
  rw [hops, hproduct, hswaps, RowOp.detFactors_append, detFactors_pivoting,
    pivotEntries_pivoted mode E hm hfound, pow_add]
  calc _ = (RowOp.detFactors E.operations * E.pivotProduct) *
          ((-1) ^ (if found = ⟨E.pivots.length, hm⟩ then 0 else 1) *
            (E.grid.get found c * mode.factor (E.grid.get found c))) := by ring
    _ = _ := by rw [h]; ring

theorem Descends.balanced {mode : Mode} {E E' : Elimination m n} {cs : List (Fin n)}
    (hrun : Descends mode E cs E') (h : E.Balanced) : E'.Balanced := by
  induction hrun with
  | done E => exact h
  | full _ => exact h
  | free _ _ _ ih => exact ih h
  | pivot hm hfound _ ih => exact ih (h.pivoted _ hm hfound)

theorem balanced_start (A : Grid m n) : (start A).Balanced := by
  simp [Balanced, start, Work.operations, RowOp.detFactors, Grid.pivotEntries, Grid.pivotEntry]

theorem neg_one_pow_mul (k : Nat) (q : Scalar) :
    (-1) ^ k * q = if k % 2 = 1 then -q else q := by
  split
  · next h => rw [(Nat.odd_iff.mpr h).neg_one_pow, neg_one_mul]
  · next h => rw [(Nat.even_iff.mpr (by omega)).neg_one_pow, one_mul]

/-- What elimination in echelon mode tells of the determinant. -/
theorem Eliminates.det_eq {A : Grid n n} {E : Elimination n n} (h : Eliminates A .echelon E) :
    A.toMatrix.det = if E.rank < n then 0 else (-1) ^ E.rowSwaps * E.pivotProduct := by
  have hbalance : E.Balanced := by
    cases h with
    | echelon down => exact down.balanced (balanced_start A)
  have hdet := RowOp.det_applyAll h.replays.invertible A
  have hne := RowOp.detFactors_ne_zero h.replays.invertible
  rw [h.replays.replay] at hdet
  apply mul_left_cancel₀ hne
  rw [← hdet]
  split
  · next hlt => rw [h.isEchelon.det_of_lt hlt, mul_zero]
  · next hge =>
    have hfull : E.pivots.length = n :=
      Nat.le_antisymm h.isEchelon.length_le (Nat.le_of_not_lt hge)
    rw [h.isEchelon.det_of_full hfull]
    have hsign : ((-1 : Scalar) ^ E.rowSwaps) * (-1) ^ E.rowSwaps = 1 := by
      rw [← mul_pow, neg_mul_neg, one_mul, one_pow]
    calc E.grid.pivotEntries E.pivots
        = (-1) ^ E.rowSwaps * ((-1) ^ E.rowSwaps * E.grid.pivotEntries E.pivots) := by
          rw [← mul_assoc, hsign, one_mul]
      _ = (-1) ^ E.rowSwaps * (RowOp.detFactors E.operations * E.pivotProduct) := by
          rw [← hbalance]
      _ = RowOp.detFactors E.operations * ((-1) ^ E.rowSwaps * E.pivotProduct) := by ring

end Elimination

theorem Mat.determinant_of_square (hrows hcols : 0 < n) (G : Grid n n) :
    (⟨n, n, hrows, hcols, G⟩ : Mat).determinant = .ok G.toMatrix.det := by
  obtain ⟨E, hE⟩ := Elimination.exists_eliminates G .echelon
  rw [determinant, if_pos rfl, eliminate, hE.eliminate_eq, hE.det_eq,
    Elimination.neg_one_pow_mul]
  rfl

/-- The determinant succeeds on every square matrix: it is the sum over all ways to pick one
entry from each row and each column, with the sign of the permutation. Any other matrix is
refused for its shape. -/
theorem Mat.determinant_eq_leibniz (A : Mat) :
    A.determinant =
      if h : A.rows = A.cols then
        .ok (∑ s : Equiv.Perm (Fin A.rows),
          ((Equiv.Perm.sign s : ℤ) : Scalar) * ∏ i, A.grid.get i ((s i).cast h))
      else .error (.shape (.notSquare "determinant" A.shape)) := by
  obtain ⟨m, n, hm, hn, G⟩ := A
  by_cases h : m = n
  · subst h
    rw [dif_pos rfl, determinant_of_square, ← Matrix.det_transpose, Matrix.det_apply']
    rfl
  · rw [dif_neg h, determinant, if_neg h]

end ExactLinear
