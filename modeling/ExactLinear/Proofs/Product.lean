import ExactLinear.Proofs.Fitting
import ExactLinear.Proofs.Grid

/- The laws of the product of matrices of any shapes. The sum over the inner index is
   taken in another order, or split, or a factor is taken out of it; on grids that is
   known of the matrices they are read as. What is added here are the shapes: both
   sides of a law fit in the same cases, so that one is refused exactly if the other is. -/
namespace ExactLinear

/-! Products of grids. -/

namespace Grid
variable {m n k : Nat}

@[simp] theorem toMatrix_add (A B : Grid m n) :
    (A.add B).toMatrix = A.toMatrix + B.toMatrix := by
  ext i j
  simp [add]

@[simp] theorem toMatrix_scale (q : Scalar) (A : Grid m n) :
    (A.scale q).toMatrix = q • A.toMatrix := by
  ext i j
  simp [scale, mul_comm]

theorem mul_add (A : Grid m k) (B C : Grid k n) : A.mul (B.add C) = (A.mul B).add (A.mul C) := by
  rw [← toMatrix_inj]
  simp only [toMatrix_mul, toMatrix_add, Matrix.mul_add]

theorem add_mul (A B : Grid m k) (C : Grid k n) : (A.add B).mul C = (A.mul C).add (B.mul C) := by
  rw [← toMatrix_inj]
  simp only [toMatrix_mul, toMatrix_add, Matrix.add_mul]

theorem scale_mul (q : Scalar) (A : Grid m k) (B : Grid k n) :
    (A.scale q).mul B = (A.mul B).scale q := by
  rw [← toMatrix_inj]
  simp only [toMatrix_mul, toMatrix_scale, Matrix.smul_mul]

theorem mul_scale (q : Scalar) (A : Grid m k) (B : Grid k n) :
    A.mul (B.scale q) = (A.mul B).scale q := by
  rw [← toMatrix_inj]
  simp only [toMatrix_mul, toMatrix_scale, Matrix.mul_smul]

end Grid

/-! Products of matrices. -/

namespace Mat
variable (A B C : Mat)

theorem agree_mul_assoc :
    Agree (B.rows = A.cols ∧ C.rows = B.cols)
      ((A.mul B).bind fun P => P.mul C) ((B.mul C).bind fun P => A.mul P) := by
  have hleft := (A.hasShape.gives_mul B.hasShape).bind fun P hP => hP.gives_mul C.hasShape
  have hright := (B.hasShape.gives_mul C.hasShape).bind fun P hP => A.hasShape.gives_mul hP
  apply hleft.agree (hright.congr And.comm)
  intro h
  obtain ⟨m, k, hm, hk, G⟩ := A
  obtain ⟨k', l, hk', hl, H⟩ := B
  obtain ⟨l', n, hl', hn, K⟩ := C
  obtain ⟨rfl, rfl⟩ : k' = k ∧ l' = l := h
  simp only [mul_mk, Except.bind, Grid.mul_assoc]

theorem agree_mul_add :
    Agree (B.rows = A.cols ∧ C.rows = B.rows ∧ C.cols = B.cols)
      ((B.add C).bind fun S => A.mul S)
      ((A.mul B).bind fun P => (A.mul C).bind fun Q => P.add Q) := by
  have hleft := (B.hasShape.gives_add C.hasShape).bind fun S hS => A.hasShape.gives_mul hS
  have hright := (A.hasShape.gives_mul B.hasShape).bind fun P hP =>
    (A.hasShape.gives_mul C.hasShape).bind fun Q hQ => hP.gives_add hQ
  apply (hleft.congr And.comm).agree (hright.congr (by omega))
  intro h
  obtain ⟨m, k, hm, hk, G⟩ := A
  obtain ⟨k', n, hk', hn, H⟩ := B
  obtain ⟨k'', n', hk'', hn', K⟩ := C
  obtain ⟨rfl, rfl, rfl⟩ : k' = k ∧ k'' = k' ∧ n' = n := h
  simp only [add_mk, mul_mk, Except.bind, Grid.mul_add]

theorem agree_add_mul :
    Agree (B.rows = A.rows ∧ B.cols = A.cols ∧ C.rows = A.cols)
      ((A.add B).bind fun S => S.mul C)
      ((A.mul C).bind fun P => (B.mul C).bind fun Q => P.add Q) := by
  have hleft := (A.hasShape.gives_add B.hasShape).bind fun S hS => hS.gives_mul C.hasShape
  have hright := (A.hasShape.gives_mul C.hasShape).bind fun P hP =>
    (B.hasShape.gives_mul C.hasShape).bind fun Q hQ => hP.gives_add hQ
  apply (hleft.congr and_assoc).agree (hright.congr (by omega))
  intro h
  obtain ⟨m, k, hm, hk, G⟩ := A
  obtain ⟨m', k', hm', hk', H⟩ := B
  obtain ⟨k'', n, hk'', hn, K⟩ := C
  obtain ⟨rfl, rfl, rfl⟩ : m' = m ∧ k' = k ∧ k'' = k := h
  simp only [add_mk, mul_mk, Except.bind, Grid.add_mul]

theorem agree_scale_mul (q : Scalar) :
    Agree (B.rows = A.cols) ((A.scale q).mul B) ((A.mul B).map fun P => P.scale q) := by
  have hleft := (A.scale q).hasShape.gives_mul B.hasShape
  have hright := (A.hasShape.gives_mul B.hasShape).map fun P => P.scale q
  apply hleft.agree hright
  intro h
  obtain ⟨m, k, hm, hk, G⟩ := A
  obtain ⟨k', n, hk', hn, H⟩ := B
  obtain rfl : k' = k := h
  simp only [scale_mk, mul_mk, Except.map, Grid.scale_mul]

theorem agree_mul_scale (q : Scalar) :
    Agree (B.rows = A.cols) (A.mul (B.scale q)) ((A.mul B).map fun P => P.scale q) := by
  have hleft := A.hasShape.gives_mul (B.scale q).hasShape
  have hright := (A.hasShape.gives_mul B.hasShape).map fun P => P.scale q
  apply hleft.agree hright
  intro h
  obtain ⟨m, k, hm, hk, G⟩ := A
  obtain ⟨k', n, hk', hn, H⟩ := B
  obtain rfl : k' = k := h
  simp only [scale_mk, mul_mk, Except.map, Grid.mul_scale]

theorem identity_mul : (identity A.rows A.rows_pos).mul A = .ok A :=
  (mul_mk _ A.grid).trans (by rw [Grid.identity_mul])

theorem mul_identity : A.mul (identity A.cols A.cols_pos) = .ok A :=
  (mul_mk A.grid _).trans (by rw [Grid.mul_identity])

/-- An identity matrix whose entries can be held is there. -/
theorem identityOfSize_eq {n : Nat} (hn : 0 < n) (hlimit : n * n ≤ Limit.entries) :
    identityOfSize n = .ok (identity n hn) := by
  have hbound : Limit.entries < Scalar.countBound := by decide
  rw [identityOfSize, if_neg (by omega), if_neg (by omega), dif_pos hn]

/-- The laws of the product, for matrices of any shapes. It is associative, it distributes over
sums on either side, and a factor may be taken out of it on either side; in each of these laws both
computations have one result if the shapes fit, and both are refused for the shapes otherwise. The
identities of a matrix's height and width are neutral, and they can be asked for by their size as
long as their entries can be held. -/
theorem product_laws (q : Scalar) :
    Agree (B.rows = A.cols ∧ C.rows = B.cols)
      ((A.mul B).bind fun P => P.mul C) ((B.mul C).bind fun P => A.mul P) ∧
    Agree (B.rows = A.cols ∧ C.rows = B.rows ∧ C.cols = B.cols)
      ((B.add C).bind fun S => A.mul S) ((A.mul B).bind fun P => (A.mul C).bind fun Q => P.add Q) ∧
    Agree (B.rows = A.rows ∧ B.cols = A.cols ∧ C.rows = A.cols)
      ((A.add B).bind fun S => S.mul C) ((A.mul C).bind fun P => (B.mul C).bind fun Q => P.add Q) ∧
    Agree (B.rows = A.cols) ((A.scale q).mul B) ((A.mul B).map fun P => P.scale q) ∧
    Agree (B.rows = A.cols) (A.mul (B.scale q)) ((A.mul B).map fun P => P.scale q) ∧
    (identity A.rows A.rows_pos).mul A = .ok A ∧
    A.mul (identity A.cols A.cols_pos) = .ok A ∧
    (A.rows * A.rows ≤ Limit.entries →
      identityOfSize A.rows = .ok (identity A.rows A.rows_pos)) ∧
    (A.cols * A.cols ≤ Limit.entries →
      identityOfSize A.cols = .ok (identity A.cols A.cols_pos)) :=
  ⟨A.agree_mul_assoc B C, A.agree_mul_add B C, A.agree_add_mul B C, A.agree_scale_mul B q,
    A.agree_mul_scale B q, A.identity_mul, A.mul_identity, identityOfSize_eq A.rows_pos,
    identityOfSize_eq A.cols_pos⟩

end Mat

end ExactLinear
