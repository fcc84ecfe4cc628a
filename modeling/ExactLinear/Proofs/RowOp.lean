import ExactLinear.Proofs.Grid
import ExactLinear.RowOp

/- What row operations do to the entries of a grid, and how they are undone. A
   row operation commutes with a product from the right (`apply_mul`), so it is
   the product with a square matrix from the left (`toMatrix_applyAll`). One that
   can be undone keeps the null vectors of a grid, and so does a list of them
   (`sameNull_applyAll`). -/
namespace ExactLinear.RowOp

open scoped Matrix

variable {m n k : Nat}

/-! Entries. -/

theorem get_apply_swap (i j : Fin m) (A : Grid m n) (x : Fin m) (y : Fin n) :
    ((swap i j).apply A).get x y = A.get (Equiv.swap i j x) y := by
  simp only [apply, Grid.get, Fin.getElem_fin, Vector.getElem_swap, Equiv.swap_apply_def,
    Fin.ext_iff]
  split
  · rfl
  · split <;> rfl

theorem get_apply_scale (i : Fin m) (q : Scalar) (A : Grid m n) (x : Fin m) (y : Fin n) :
    ((scale i q).apply A).get x y = if x = i then A.get x y * q else A.get x y := by
  simp only [apply, Grid.get_setRow]
  by_cases h : x = i
  · subst h
    simp [Grid.row, Grid.get]
  · rw [if_neg (Ne.symm h), if_neg h]

theorem get_apply_replace (t s : Fin m) (q : Scalar) (A : Grid m n) (x : Fin m) (y : Fin n) :
    ((replace t s q).apply A).get x y =
      if x = t then A.get x y + q * A.get s y else A.get x y := by
  simp only [apply, Grid.get_setRow]
  by_cases h : x = t
  · subst h
    simp [Grid.row, Grid.get]
  · rw [if_neg (Ne.symm h), if_neg h]

/-! Lists of operations. -/

@[simp] theorem applyAll_nil (A : Grid m n) : applyAll [] A = A := rfl

@[simp] theorem applyAll_cons (op : RowOp m) (ops : List (RowOp m)) (A : Grid m n) :
    applyAll (op :: ops) A = applyAll ops (op.apply A) := rfl

theorem applyAll_append (first later : List (RowOp m)) (A : Grid m n) :
    applyAll (first ++ later) A = applyAll later (applyAll first A) :=
  List.foldl_append

/-! Operations that can be undone. -/

/-- Whether an operation can be undone: a swap of two different rows, a scaling by a nonzero
factor, a multiple of one row added to a different row. -/
def Invertible : RowOp m → Prop
  | .swap i j => i ≠ j
  | .scale _ q => q ≠ 0
  | .replace t s _ => t ≠ s

instance (op : RowOp m) : Decidable op.Invertible :=
  match op with
  | .swap i j => inferInstanceAs (Decidable (i ≠ j))
  | .scale _ q => inferInstanceAs (Decidable (q ≠ 0))
  | .replace t s _ => inferInstanceAs (Decidable (t ≠ s))

/-- The operation that undoes another. -/
def inverse : RowOp m → RowOp m
  | .swap i j => .swap i j
  | .scale i q => .scale i (1 / q)
  | .replace t s q => .replace t s (-q)

theorem Invertible.inverse {op : RowOp m} (h : op.Invertible) : op.inverse.Invertible := by
  cases op with
  | swap i j => exact h
  | scale i q => exact one_div_ne_zero h
  | replace t s q => exact h

theorem inverse_apply_apply {op : RowOp m} (h : op.Invertible) (A : Grid m n) :
    op.inverse.apply (op.apply A) = A := by
  apply Grid.ext_get
  intro x y
  cases op with
  | swap i j => rw [inverse, get_apply_swap, get_apply_swap, Equiv.swap_apply_self]
  | scale i q =>
    have hq : q ≠ 0 := h
    rw [inverse, get_apply_scale, get_apply_scale]
    split
    · rw [mul_assoc, mul_one_div_cancel hq, mul_one]
    · rfl
  | replace t s q =>
    have hst : s ≠ t := Ne.symm h
    rw [inverse, get_apply_replace, get_apply_replace, get_apply_replace, if_neg hst]
    split
    · ring
    · rfl

/-- The operations that undo a list of operations. -/
def undo (ops : List (RowOp m)) : List (RowOp m) := (ops.map inverse).reverse

theorem invertible_of_mem_undo {ops : List (RowOp m)} (h : ∀ op ∈ ops, op.Invertible) :
    ∀ op ∈ undo ops, op.Invertible := by
  intro op hop
  unfold undo at hop
  rw [List.mem_reverse, List.mem_map] at hop
  obtain ⟨op', hop', rfl⟩ := hop
  exact (h op' hop').inverse

theorem applyAll_undo {ops : List (RowOp m)} (h : ∀ op ∈ ops, op.Invertible) (A : Grid m n) :
    applyAll (undo ops) (applyAll ops A) = A := by
  induction ops generalizing A with
  | nil => rfl
  | cons op ops ih =>
    obtain ⟨hop, hops⟩ := List.forall_mem_cons.mp h
    have hundo : undo (op :: ops) = undo ops ++ [op.inverse] := by simp [undo]
    rw [applyAll_cons, hundo, applyAll_append, ih hops, applyAll_cons, applyAll_nil]
    exact inverse_apply_apply hop A

/-! Operations as products. -/

theorem apply_mul (op : RowOp m) (A : Grid m k) (B : Grid k n) :
    op.apply (A.mul B) = (op.apply A).mul B := by
  apply Grid.ext_get
  intro x y
  cases op with
  | swap i j => simp only [get_apply_swap, Grid.get_mul]
  | scale i q =>
    simp only [get_apply_scale, Grid.get_mul]
    split
    · rw [Finset.sum_mul]
      exact Finset.sum_congr rfl fun l _ => by ring
    · rfl
  | replace t s q =>
    simp only [get_apply_replace, Grid.get_mul]
    split
    · rw [Finset.mul_sum, ← Finset.sum_add_distrib]
      exact Finset.sum_congr rfl fun l _ => by ring
    · rfl

theorem applyAll_mul (ops : List (RowOp m)) (A : Grid m k) (B : Grid k n) :
    applyAll ops (A.mul B) = (applyAll ops A).mul B := by
  induction ops generalizing A with
  | nil => rfl
  | cons op ops ih => rw [applyAll_cons, applyAll_cons, apply_mul, ih]

/-- The matrix of a list of operations: what they make of the identity. -/
def matrix (ops : List (RowOp m)) : Matrix (Fin m) (Fin m) Scalar :=
  (applyAll ops (Grid.identity m)).toMatrix

theorem toMatrix_applyAll (ops : List (RowOp m)) (A : Grid m n) :
    (applyAll ops A).toMatrix = matrix ops * A.toMatrix := by
  unfold matrix
  rw [← Grid.toMatrix_mul, ← applyAll_mul, Grid.identity_mul]

theorem matrix_undo_mul {ops : List (RowOp m)} (h : ∀ op ∈ ops, op.Invertible) :
    matrix (undo ops) * matrix ops = 1 := by
  calc matrix (undo ops) * matrix ops
      = (applyAll (undo ops) (applyAll ops (Grid.identity m))).toMatrix :=
        (toMatrix_applyAll _ _).symm
    _ = 1 := by rw [applyAll_undo h, Grid.toMatrix_identity]

/-- Operations that can be undone neither add nor remove null vectors. -/
theorem sameNull_applyAll {ops : List (RowOp m)} (h : ∀ op ∈ ops, op.Invertible)
    (A : Grid m n) : Grid.SameNull A (applyAll ops A) := by
  intro x
  rw [toMatrix_applyAll, ← Matrix.mulVec_mulVec]
  refine ⟨?_, ?_⟩
  · intro hx
    rw [hx, Matrix.mulVec_zero]
  · intro hx
    -- Undoing the operations is a product from the left as well.
    have hback := congrArg (matrix (undo ops) *ᵥ ·) hx
    simpa only [Matrix.mulVec_mulVec, ← Matrix.mul_assoc, matrix_undo_mul h, Matrix.one_mul,
      Matrix.mulVec_zero] using hback

end ExactLinear.RowOp
