import ExactLinear.Proofs.Inverse

/- The solutions of linear systems with a square matrix that has an inverse, for any
   number of right-hand sides at once. They are the right-hand sides multiplied by
   the inverse, and they are what the reduced form of the matrix with the right-hand
   sides beside it has beside the identity. The two eliminations, of the matrix with
   the identity and of the matrix with the right-hand sides beside it, have nothing
   in common but the inverse that the first one finds. -/
namespace ExactLinear.Mat

variable {n : Nat}

theorem exists_of_inverse_square {hn : 0 < n} {G : Grid n n} {X : Mat}
    (h : (square hn G).inverse = .ok X) :
    ∃ H, X = square hn H ∧ G.mul H = Grid.identity n := by
  obtain ⟨E, hE⟩ := Elimination.exists_eliminates (G.augment (Grid.identity n)) .reduced
  rw [inverse_square hn hE] at h
  split at h
  · next hpivots =>
    refine ⟨E.grid.rightPart, (Except.ok.inj h).symm, ?_⟩
    exact Grid.mul_eq_identity_comm.mp (hE.rightPart_mul hpivots)
  · cases h

/-- Solving by reduction is solving by the inverse. For a matrix that has an inverse and any
right-hand sides of its height, all that is asked for is there, and the reduced form of the matrix
with the right-hand sides beside it is the identity with the product of the inverse and the
right-hand sides beside it. -/
theorem reduced_augment_of_inverse {A X B : Mat} (hinverse : A.inverse = .ok X)
    (hrows : B.rows = A.rows) :
    ∃ M C R, A.augment B = .ok M ∧ X.mul B = .ok C ∧
      (identity A.rows A.rows_pos).augment C = .ok R ∧ M.reduced = .ok R := by
  have hsquare : A.rows = A.cols := rows_eq_cols_of_inverse (by simp [hinverse])
  obtain ⟨G, hA⟩ := exists_eq_square hsquare
  generalize A.rows_pos = hn at *
  generalize A.rows = n at *
  subst hA
  obtain ⟨H, rfl, hH⟩ := exists_of_inverse_square hinverse
  obtain ⟨m, k, hm, hk, Y⟩ := B
  obtain rfl : m = n := hrows
  obtain ⟨E, hE⟩ := Elimination.exists_eliminates (G.augment Y) .reduced
  have hpos : 0 < m + k := Nat.add_pos_left hn k
  refine ⟨⟨m, m + k, hn, hpos, G.augment Y⟩, ⟨m, k, hn, hk, H.mul Y⟩,
    ⟨m, m + k, hn, hpos, (Grid.identity m).augment (H.mul Y)⟩, dif_pos rfl, dif_pos rfl,
    dif_pos rfl, ?_⟩
  rw [reduced_eq hE, (hE.reduced_of_mul_eq hH).1]
  rfl

/-- A matrix with one half on the diagonal and two elsewhere. -/
def halves : Mat :=
  square Nat.two_pos (Grid.ofFn fun i j => if i = j then 1 / 2 else 2)

/-- The right-hand sides of two systems. -/
def rightHandSides : Mat :=
  square Nat.two_pos (Grid.ofFn fun i j => if i = j then 15 else 0)

/-- The two systems with these coefficients are solved by reduction as by the inverse. -/
theorem reduced_augment_of_inverse_halves :
    ∃ X M C R, halves.inverse = .ok X ∧ rightHandSides.rows = halves.rows ∧
      halves.augment rightHandSides = .ok M ∧ X.mul rightHandSides = .ok C ∧
      (identity halves.rows halves.rows_pos).augment C = .ok R ∧ M.reduced = .ok R ∧
      C.toRows = [[-2, 8], [8, -2]] := by
  have hinverse : halves.inverse = .ok (square Nat.two_pos
      (Grid.ofFn fun i j => if i = j then -2 / 15 else 8 / 15)) := by decide +kernel
  have hproduct : (square Nat.two_pos
      (Grid.ofFn fun i j => if i = j then -2 / 15 else 8 / 15)).mul rightHandSides =
      .ok (square Nat.two_pos (Grid.ofFn fun i j => if i = j then -2 else 8)) := by
    decide +kernel
  obtain ⟨M, C, R, hM, hC, hR, hreduced⟩ :=
    reduced_augment_of_inverse (B := rightHandSides) hinverse rfl
  refine ⟨_, M, C, R, hinverse, rfl, hM, hC, hR, hreduced, ?_⟩
  obtain rfl := Except.ok.inj (hproduct.symm.trans hC)
  decide +kernel

end ExactLinear.Mat
