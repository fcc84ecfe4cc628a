import ExactLinear.Grid
import Mathlib.Algebra.BigOperators.Fin
import Mathlib.LinearAlgebra.Matrix.NonsingularInverse

/- A grid read as a matrix over the rationals. The entries are the same and the
   product is the matrix product, so what is known of matrices holds of grids,
   and `toMatrix` loses nothing (`toMatrix_inj`). The null vectors of a grid are
   kept by a product with an invertible grid from the left (`SameNull.of_mul`). -/
namespace ExactLinear.Grid

open scoped Matrix

variable {m n k l : Nat}

/-- The entries of a grid as a matrix. -/
def toMatrix (A : Grid m n) : Matrix (Fin m) (Fin n) Scalar := Matrix.of A.get

@[simp] theorem toMatrix_apply (A : Grid m n) (i : Fin m) (j : Fin n) :
    A.toMatrix i j = A.get i j := rfl

theorem toMatrix_inj {A B : Grid m n} : A.toMatrix = B.toMatrix ↔ A = B := by
  refine ⟨?_, ?_⟩
  · intro h
    exact ext_get fun i j => congrFun (congrFun h i) j
  · intro h
    rw [h]

theorem exists_toMatrix_eq (M : Matrix (Fin m) (Fin n) Scalar) :
    ∃ A : Grid m n, A.toMatrix = M := by
  refine ⟨ofFn M, ?_⟩
  ext i j
  exact get_ofFn M i j

/-! Products. -/

theorem foldl_eq_sum (f : Fin n → Scalar) (a : Scalar) :
    Fin.foldl n (fun sum i => sum + f i) a = a + ∑ i, f i := by
  induction n with
  | zero => simp
  | succ n ih => rw [Fin.foldl_succ_last, ih, Fin.sum_univ_castSucc, add_assoc]

theorem get_mul (A : Grid m k) (B : Grid k n) (i : Fin m) (j : Fin n) :
    (A.mul B).get i j = ∑ l, A.get i l * B.get l j := by
  rw [mul, get_ofFn, dot, foldl_eq_sum, zero_add]

@[simp] theorem toMatrix_mul (A : Grid m k) (B : Grid k n) :
    (A.mul B).toMatrix = A.toMatrix * B.toMatrix := by
  ext i j
  rw [toMatrix_apply, get_mul, Matrix.mul_apply]
  rfl

@[simp] theorem toMatrix_identity : (identity n).toMatrix = 1 := by
  ext i j
  simp [identity, Matrix.one_apply]

@[simp] theorem toMatrix_zero : (zero m n).toMatrix = 0 := by
  ext i j
  simp [zero]

theorem identity_mul (A : Grid m n) : (identity m).mul A = A := by
  rw [← toMatrix_inj, toMatrix_mul, toMatrix_identity, Matrix.one_mul]

theorem mul_identity (A : Grid m n) : A.mul (identity n) = A := by
  rw [← toMatrix_inj, toMatrix_mul, toMatrix_identity, Matrix.mul_one]

theorem mul_assoc (A : Grid m k) (B : Grid k l) (C : Grid l n) :
    (A.mul B).mul C = A.mul (B.mul C) := by
  rw [← toMatrix_inj]
  simp only [toMatrix_mul, Matrix.mul_assoc]

/-- An inverse from one side is one from the other. -/
theorem mul_eq_identity_comm {A B : Grid n n} :
    A.mul B = identity n ↔ B.mul A = identity n := by
  rw [← toMatrix_inj, ← toMatrix_inj, toMatrix_mul, toMatrix_mul, toMatrix_identity]
  exact mul_eq_one_comm

/-! Grids side by side. -/

@[simp] theorem get_augment_castAdd (A : Grid m n) (B : Grid m k) (i : Fin m) (j : Fin n) :
    (A.augment B).get i (Fin.castAdd k j) = A.get i j := by
  simp [get_augment]

@[simp] theorem get_augment_natAdd (A : Grid m n) (B : Grid m k) (i : Fin m) (j : Fin k) :
    (A.augment B).get i (Fin.natAdd n j) = B.get i j := by
  simp [get_augment]

@[simp] theorem rightPart_augment (A : Grid m n) (B : Grid m k) :
    (A.augment B).rightPart = B := by
  apply ext_get
  intro i j
  simp [rightPart]

theorem mul_augment (C : Grid l m) (A : Grid m n) (B : Grid m k) :
    C.mul (A.augment B) = (C.mul A).augment (C.mul B) := by
  apply ext_get
  intro i j
  induction j using Fin.addCases with
  | left j => simp [get_mul]
  | right j => simp [get_mul]

/-! Grids with the same null vectors. -/

/-- Exactly the same vectors are sent to zero by the two grids. -/
def SameNull (A : Grid m n) (B : Grid k n) : Prop :=
  ∀ x, A.toMatrix *ᵥ x = 0 ↔ B.toMatrix *ᵥ x = 0

namespace SameNull

theorem symm {A : Grid m n} {B : Grid k n} (h : SameNull A B) : SameNull B A :=
  fun x => (h x).symm

theorem trans {A : Grid m n} {B : Grid k n} {C : Grid l n} (hAB : SameNull A B)
    (hBC : SameNull B C) : SameNull A C :=
  fun x => (hAB x).trans (hBC x)

/-- Multiplying from the left by a grid with an inverse keeps the null vectors. -/
theorem of_mul {X C : Grid m m} (h : X.mul C = identity m) (A : Grid m n) :
    SameNull A (C.mul A) := by
  intro x
  have hback : A.toMatrix = X.toMatrix * (C.mul A).toMatrix := by
    rw [← toMatrix_mul, ← mul_assoc, h, identity_mul]
  refine ⟨?_, ?_⟩
  · intro hx
    rw [toMatrix_mul, ← Matrix.mulVec_mulVec, hx, Matrix.mulVec_zero]
  · intro hx
    rw [hback, ← Matrix.mulVec_mulVec, hx, Matrix.mulVec_zero]

/-- The null vectors taken as the columns of a grid. -/
theorem mul_eq_zero_iff {A : Grid m n} {B : Grid k n} (h : SameNull A B) (X : Grid n l) :
    A.mul X = zero m l ↔ B.mul X = zero k l := by
  have columns : ∀ {p : Nat} (C : Grid p n),
      C.mul X = zero p l ↔ ∀ j, C.toMatrix *ᵥ (X.toMatrix.col j) = 0 := by
    intro p C
    rw [← toMatrix_inj, toMatrix_mul, toMatrix_zero]
    refine ⟨?_, ?_⟩
    · intro hC j
      funext i
      exact congrFun (congrFun hC i) j
    · intro hC
      ext i j
      exact congrFun (hC j) i
  rw [columns, columns]
  exact forall_congr' fun j => h _

end SameNull

end ExactLinear.Grid
