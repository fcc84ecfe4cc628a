import ExactLinear.Mat.Arithmetic
import ExactLinear.Proofs.CanonicalForm

/- The inverse, read off the reduced form of a square grid with the identity
   beside it. When the pivots are the columns of the grid, the left block is the
   identity, and the right block is what the log makes of the identity: an
   inverse. When the grid has an inverse `X`, the identity with `X` beside it is a
   reduced grid with the same null vectors, so it is that reduced form. -/
namespace ExactLinear

variable {n k : Nat}

namespace Grid

/-- The identity with any grid beside it is reduced. -/
theorem isReduced_identity_augment (Y : Grid n k) :
    ((identity n).augment Y).IsReduced ((List.finRange n).map (Fin.castAdd k)) := by
  have hpivot : ∀ (i : Fin n) (c : Fin (n + k)),
      ((List.finRange n).map (Fin.castAdd k))[i.val]? = some c → c = Fin.castAdd k i := by
    intro i c hc
    simpa using hc.symm
  have hget : ∀ i j : Fin n,
      ((identity n).augment Y).get i (Fin.castAdd k j) = if i = j then 1 else 0 := by
    intro i j
    rw [get_augment_castAdd, identity, get_ofFn]
  constructor
  case toIsEchelon =>
    constructor
    case increasing => exact (List.pairwise_lt_finRange n).map _ fun _ _ h => h
    case length_le => simp
    case zero_before =>
      intro i c hc j hj
      obtain rfl := hpivot i c hc
      have hji : j.val < i.val := hj
      have hne : i ≠ ⟨j.val, Nat.lt_trans hji i.isLt⟩ := fun h => hji.ne' (congrArg Fin.val h)
      exact (hget i _).trans (if_neg hne)
    case pivot_ne_zero =>
      intro i c hc
      obtain rfl := hpivot i c hc
      rw [hget, if_pos rfl]
      exact one_ne_zero
    case zero_rows =>
      intro i hi
      rw [List.length_map, List.length_finRange] at hi
      exact absurd i.isLt (Nat.not_lt.mpr hi)
  case pivot_one =>
    intro i c hc
    obtain rfl := hpivot i c hc
    rw [hget, if_pos rfl]
  case pivot_alone =>
    intro i c hc x hx
    obtain rfl := hpivot i c hc
    rw [hget, if_neg hx]

end Grid

namespace Elimination.Eliminates
variable {A : Grid n n} {E : Elimination n (n + n)}

/-- With the pivots in the left block the right block is an inverse. -/
theorem rightPart_mul (h : Eliminates (A.augment (Grid.identity n)) .reduced E)
    (hpivots : E.pivots.map Fin.val = List.range n) :
    E.grid.rightPart.mul A = Grid.identity n := by
  have hgrid : E.grid = ((RowOp.applyAll E.operations (Grid.identity n)).mul A).augment
      (RowOp.applyAll E.operations (Grid.identity n)) := by
    calc E.grid
        = RowOp.applyAll E.operations (A.augment (Grid.identity n)) := h.replays.replay.symm
      _ = (RowOp.applyAll E.operations (Grid.identity n)).mul (A.augment (Grid.identity n)) := by
          rw [← RowOp.applyAll_mul, Grid.identity_mul]
      _ = _ := by rw [Grid.mul_augment, Grid.mul_identity]
  have hpivot : ∀ j : Fin n, E.pivots[j.val]? = some (Fin.castAdd n j) := by
    intro j
    have hj : ∃ c, E.pivots[j.val]? = some c ∧ c.val = j.val := by
      have hj := congrArg (·[j.val]?) hpivots
      simpa using hj
    obtain ⟨c, hc, hcj⟩ := hj
    rw [hc, show c = Fin.castAdd n j from Fin.ext hcj]
  rw [hgrid, Grid.rightPart_augment]
  apply Grid.ext_get
  intro i j
  rw [← Grid.get_augment_castAdd _ (RowOp.applyAll E.operations (Grid.identity n)), ← hgrid,
    Grid.identity, Grid.get_ofFn]
  split
  · next hij => rw [hij, h.isReduced.pivot_one j _ (hpivot j)]
  · next hij => rw [h.isReduced.pivot_alone j _ (hpivot j) i hij]

/-- With a grid that has an inverse in the left block, the reduced form is the identity there, and
the other columns are multiplied by the inverse. -/
theorem reduced_of_mul_eq {Y : Grid n k} {F : Elimination n (n + k)}
    (h : Eliminates (A.augment Y) .reduced F) {X : Grid n n} (hX : A.mul X = Grid.identity n) :
    F.grid = (Grid.identity n).augment (X.mul Y) ∧
      F.pivots = (List.finRange n).map (Fin.castAdd k) := by
  have hA : A.augment Y = A.mul ((Grid.identity n).augment (X.mul Y)) := by
    rw [Grid.mul_augment, Grid.mul_identity, ← Grid.mul_assoc, hX, Grid.identity_mul]
  have hnull : Grid.SameNull (A.augment Y) ((Grid.identity n).augment (X.mul Y)) := by
    rw [hA]
    exact (Grid.SameNull.of_mul (Grid.mul_eq_identity_comm.mp hX) _).symm
  exact h.grid_eq_of_sameNull (Grid.isReduced_identity_augment _) hnull

/-- A grid with an inverse has its pivots in the left block. -/
theorem pivots_of_mul_eq (h : Eliminates (A.augment (Grid.identity n)) .reduced E)
    {X : Grid n n} (hX : A.mul X = Grid.identity n) :
    E.pivots.map Fin.val = List.range n := by
  rw [(h.reduced_of_mul_eq hX).2]
  simp [List.map_map, Function.comp_def]

end Elimination.Eliminates

/-! Matrices. -/

namespace Mat

/-- The square matrix with the given entries. -/
def square (hn : 0 < n) (G : Grid n n) : Mat := ⟨n, n, hn, hn, G⟩

theorem exists_eq_square {A : Mat} (h : A.rows = A.cols) :
    ∃ G : Grid A.rows A.rows, A = square A.rows_pos G := by
  obtain ⟨m, n, hm, hn, G⟩ := A
  obtain rfl : m = n := h
  exact ⟨G, rfl⟩

theorem square_mul_square (hn : 0 < n) (G H : Grid n n) :
    (square hn G).mul (square hn H) = .ok (square hn (G.mul H)) :=
  dif_pos rfl

theorem square_inj {hn : 0 < n} {G H : Grid n n} : square hn G = square hn H ↔ G = H := by
  simp [square]

/-- A product with a square matrix is the identity only for a square factor of the same size. -/
theorem square_mul_eq_identity_iff (hn : 0 < n) (G : Grid n n) (B : Mat) :
    (square hn G).mul B = .ok (identity n hn) ↔
      ∃ H, B = square hn H ∧ G.mul H = Grid.identity n := by
  refine ⟨?_, ?_⟩
  · intro h
    have hfit : B.rows = n := by
      by_contra hne
      have hrefused : (square hn G).mul B = .error _ := dif_neg hne
      rw [hrefused] at h
      cases h
    obtain ⟨k, l, hk, hl, H⟩ := B
    obtain rfl : k = n := hfit
    have hprod : (square hk G).mul ⟨k, l, hk, hl, H⟩ = .ok ⟨k, l, hk, hl, G.mul H⟩ := dif_pos rfl
    rw [hprod] at h
    obtain rfl : l = k := congrArg cols (Except.ok.inj h)
    exact ⟨H, rfl, square_inj.mp (Except.ok.inj h)⟩
  · intro h
    obtain ⟨H, rfl, hprod⟩ := h
    rw [square_mul_square, hprod]
    rfl

/-- Only a matrix that is not square is refused for its shape. -/
theorem rows_eq_cols_of_inverse {A : Mat} (h : ∀ mismatch, A.inverse ≠ .error (.shape mismatch)) :
    A.rows = A.cols := by
  by_contra hne
  exact h _ (if_neg hne)

theorem inverse_square (hn : 0 < n) {G : Grid n n} {E : Elimination n (n + n)}
    (hE : Elimination.Eliminates (G.augment (Grid.identity n)) .reduced E) :
    (square hn G).inverse =
      if E.pivots.map Fin.val = List.range n then .ok (square hn E.grid.rightPart)
      else .error .singular := by
  have hrun : (square hn G).inverse =
      ((G.augment (Grid.identity n)).eliminate .reduced).bind fun E =>
        if E.pivots.map Fin.val = List.range n then .ok (square hn E.grid.rightPart)
        else .error .singular := if_pos rfl
  rw [hrun, hE.eliminate_eq]
  rfl

theorem inverse_of_mul_eq (hn : 0 < n) {G X : Grid n n} (hX : G.mul X = Grid.identity n) :
    (square hn G).inverse = .ok (square hn X) := by
  obtain ⟨E, hE⟩ := Elimination.exists_eliminates (G.augment (Grid.identity n)) .reduced
  have hpivots := hE.pivots_of_mul_eq hX
  have hright : E.grid.rightPart = X :=
    calc E.grid.rightPart
        = E.grid.rightPart.mul (G.mul X) := by rw [hX, Grid.mul_identity]
      _ = (E.grid.rightPart.mul G).mul X := (Grid.mul_assoc _ _ _).symm
      _ = X := by rw [hE.rightPart_mul hpivots, Grid.identity_mul]
  rw [inverse_square hn hE, if_pos hpivots, hright]

theorem inverse_of_forall_ne (hn : 0 < n) {G : Grid n n}
    (h : ∀ X, G.mul X ≠ Grid.identity n) : (square hn G).inverse = .error .singular := by
  obtain ⟨E, hE⟩ := Elimination.exists_eliminates (G.augment (Grid.identity n)) .reduced
  rw [inverse_square hn hE, if_neg]
  intro hpivots
  exact h _ (Grid.mul_eq_identity_comm.mp (hE.rightPart_mul hpivots))

/-- The inverse of a matrix, case by case. It is refused for its shape exactly when the matrix is
not square. On a square matrix it succeeds exactly when some matrix times it from the right is
the identity, with the one matrix that is an inverse from both sides; and otherwise the matrix is
singular. -/
theorem inverse_cases (A : Mat) :
    ((∃ e, A.inverse = .error (.shape e)) ↔ A.rows ≠ A.cols) ∧
    ((∃ B, A.inverse = .ok B) ↔
      A.rows = A.cols ∧ ∃ X, A.mul X = .ok (identity A.rows A.rows_pos)) ∧
    (∀ B, A.inverse = .ok B ↔ A.rows = A.cols ∧
      A.mul B = .ok (identity A.rows A.rows_pos) ∧
      B.mul A = .ok (identity A.rows A.rows_pos)) ∧
    (A.inverse = .error .singular ↔
      A.rows = A.cols ∧ ∀ X, A.mul X ≠ .ok (identity A.rows A.rows_pos)) := by
  by_cases hsquare : A.rows = A.cols
  · obtain ⟨G, hA⟩ := exists_eq_square hsquare
    generalize A.rows_pos = hn at *
    generalize A.rows = n at *
    subst hA
    have hcols : (square hn G).cols = n := rfl
    simp only [square_mul_eq_identity_iff, hcols, ne_eq, not_true_eq_false, iff_false, true_and]
    by_cases hex : ∃ X, G.mul X = Grid.identity n
    · obtain ⟨X, hX⟩ := hex
      have hleft := Grid.mul_eq_identity_comm.mp hX
      rw [inverse_of_mul_eq hn hX]
      refine ⟨by simp, ?_, ?_, ?_⟩
      · exact iff_of_true ⟨_, rfl⟩ ⟨_, X, rfl, hX⟩
      · intro B
        refine ⟨?_, ?_⟩
        · intro hB
          obtain rfl := Except.ok.inj hB
          refine ⟨⟨X, rfl, hX⟩, ?_⟩
          rw [square_mul_square, hleft]
          rfl
        · intro hB
          obtain ⟨⟨H, rfl, hH⟩, _⟩ := hB
          have hXH : X = H :=
            calc X = X.mul (G.mul H) := by rw [hH, Grid.mul_identity]
              _ = (X.mul G).mul H := (Grid.mul_assoc _ _ _).symm
              _ = H := by rw [hleft, Grid.identity_mul]
          rw [hXH]
      · exact iff_of_false (fun h => by cases h) fun h => h _ ⟨X, rfl, hX⟩
    · have hne : ∀ X, G.mul X ≠ Grid.identity n := fun X hX => hex ⟨X, hX⟩
      rw [inverse_of_forall_ne hn hne]
      refine ⟨by simp, ?_, ?_, ?_⟩
      · refine iff_of_false ?_ ?_
        · intro h
          obtain ⟨_, h⟩ := h
          cases h
        · intro h
          obtain ⟨_, H, _, hH⟩ := h
          exact hne H hH
      · intro B
        refine iff_of_false (fun h => by cases h) ?_
        intro h
        obtain ⟨⟨H, _, hH⟩, _⟩ := h
        exact hne H hH
      · refine iff_of_true rfl ?_
        intro _ h
        obtain ⟨H, _, hH⟩ := h
        exact hne H hH
  · have hout : A.inverse = .error (.shape (.notSquare "inverse" A.shape)) := if_neg hsquare
    simp [hout, hsquare]

end Mat

end ExactLinear
