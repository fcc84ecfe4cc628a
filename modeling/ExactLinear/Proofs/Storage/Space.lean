import ExactLinear.Family
import ExactLinear.Proofs.Storage.Elimination
import ExactLinear.Storage.Space

/- What is computed from eliminations of stored matrices. The pivots are columns of the
   matrix, each further right than the one before, and no more of them than there are
   rows; so there are rows and columns with the numbers that are asked for, and no
   count comes out negative. -/
namespace ExactLinear

/-- There are no more pivots than rows or columns. -/
theorem Mat.exists_eliminate (A : Mat) (mode : Mode) :
    ∃ E, A.eliminate mode = .ok E ∧ E.rank ≤ A.rows ∧ E.rank ≤ A.cols := by
  obtain ⟨E, hE⟩ := Elimination.exists_eliminates A.grid mode
  have hnodup : E.pivots.Nodup := hE.isEchelon.increasing.imp Fin.ne_of_lt
  have hcols : E.pivots.length ≤ A.cols := by simpa using hnodup.length_le_card
  exact ⟨E, hE.eliminate_eq, hE.isEchelon.length_le, hcols⟩

theorem Elimination.rank_eq_zero_iff {m n : Nat} {E : Elimination m n} :
    E.rank = 0 ↔ E.pivots = [] := List.length_eq_zero_iff

namespace Storage.Table

/-! One matrix. -/

theorem echelon_eq (A : Mat) : (ofMat A).echelon = attempt (A.echelon.map ofMat) := by
  rw [echelon, eliminate_eq, Mat.echelon]
  cases A.eliminate .echelon <;> rfl

theorem reduced_eq (A : Mat) : (ofMat A).reduced = attempt (A.reduced.map ofMat) := by
  rw [reduced, eliminate_eq, Mat.reduced]
  cases A.eliminate .reduced <;> rfl

theorem rank_ofElimination (A : Mat) (E : Elimination A.rows A.cols) :
    (Reduction.ofElimination A E).rank = E.rank := List.length_map _

theorem determinant_eq (A : Mat) : (ofMat A).determinant = attempt A.determinant := by
  unfold determinant Mat.determinant
  rw [rows_ofMat, cols_ofMat, eliminate_eq]
  split
  · cases A.eliminate .echelon with
    | ok E =>
      show Except.ok (if (Reduction.ofElimination A E).rank < A.rows then _ else _) = _
      rw [rank_ofElimination]
      rfl
    | error e => rfl
  · rfl

theorem rank_eq (A : Mat) : (ofMat A).rank = attempt A.rank := by
  rw [rank, eliminate_eq, Mat.rank]
  cases A.eliminate .echelon with
  | ok E => exact congrArg Except.ok (rank_ofElimination A E)
  | error e => rfl

/-- A question that is answered from the rank. -/
theorem rank_map_eq {α : Type} (A : Mat) (f : Nat → α) :
    (do let r ← (ofMat A).rank; return f r) = attempt (A.rank.map f) := by
  rw [rank_eq]
  cases A.rank <;> rfl

theorem nullity_eq (A : Mat) : (ofMat A).nullity = attempt A.nullity := by
  obtain ⟨E, hE, -, hcols⟩ := A.exists_eliminate .echelon
  have hrank : A.rank = .ok E.rank := by
    rw [Mat.rank, hE]
    rfl
  rw [nullity, rank_eq, Mat.nullity, hrank, attempt_ok, ok_bind, cols_ofMat,
    difference_eq_ok hcols]
  rfl

theorem isConsistent_eq (A : Mat) : (ofMat A).isConsistent = attempt A.isConsistent := by
  rw [isConsistent, eliminate_eq, Mat.isConsistent, cols_ofMat, difference_eq_ok A.cols_pos]
  cases A.eliminate .echelon with
  | ok E => simp [Except.map, Reduction.ofElimination, List.getLast?_map]
  | error e => rfl

theorem columnSpace_eq (A : Mat) : (ofMat A).columnSpace = attempt (A.columnSpace.map ofMat) := by
  rw [columnSpace, eliminate_eq, Mat.columnSpace]
  cases A.eliminate .reduced with
  | error e => rfl
  | ok E =>
    show (if (Reduction.ofElimination A E).rank = 0 then zeros A.rows 1
      else (ofMat A).selectColumns (E.pivots.map Fin.val)) = attempt (.ok (ofMat (dite _ _ _)))
    rw [rank_ofElimination]
    by_cases h : E.pivots = []
    · rw [if_pos (Elimination.rank_eq_zero_iff.mpr h), dif_pos h]
      exact zeros_eq A.rows_pos Nat.one_pos
    · rw [if_neg (mt Elimination.rank_eq_zero_iff.mp h), dif_neg h]
      exact selectColumns_eq A E.pivots h

theorem rowSpace_eq (A : Mat) : (ofMat A).rowSpace = attempt (A.rowSpace.map ofMat) := by
  obtain ⟨E, hE, hrank, -⟩ := A.exists_eliminate .reduced
  -- No row is missing from the first `E.rank` ones, since there are no more pivots than rows.
  have hlength : ((List.finRange A.rows).take E.rank).length = E.rank := by
    rw [List.length_take, List.length_finRange, Nat.min_eq_left hrank]
  have hrows : List.range E.rank = ((List.finRange A.rows).take E.rank).map Fin.val := by
    rw [List.map_take, List.map_coe_finRange_eq_range, List.take_range, Nat.min_eq_left hrank]
  rw [rowSpace, eliminate_eq, Mat.rowSpace, hE]
  show (if (Reduction.ofElimination A E).rank = 0 then zeros 1 A.cols
    else (ofMat (A.withGrid E.grid)).selectRows (List.range (Reduction.ofElimination A E).rank)) =
      attempt (.ok (ofMat (dite _ _ _)))
  rw [rank_ofElimination]
  by_cases h : (List.finRange A.rows).take E.rank = []
  · rw [if_pos (hlength ▸ List.length_eq_zero_iff.mpr h), dif_pos h]
    exact zeros_eq Nat.one_pos A.cols_pos
  · have hne : ¬E.rank = 0 := fun hzero => h (List.length_eq_zero_iff.mp (hlength.trans hzero))
    rw [if_neg hne, dif_neg h, hrows]
    exact selectRows_eq (A.withGrid E.grid) _ h

/-- The identity beside a square matrix, taken out by the numbers of its columns. -/
theorem selectColumns_rightPart (A : Mat) (h : A.rows = A.cols)
    (G : Grid A.rows (A.cols + A.rows)) (hcols : 0 < A.cols + A.rows) :
    (ofMat ⟨A.rows, A.cols + A.rows, A.rows_pos, hcols, G⟩).selectColumns
        (interval A.rows (2 * A.rows)) =
      (.ok (ofMat ⟨A.rows, A.rows, A.rows_pos, A.rows_pos, G.rightPart⟩) :
        Checked AlgebraError Table) := by
  have hne : (List.finRange A.rows).map (Fin.natAdd A.cols) ≠ [] := by
    simpa using Nat.ne_of_gt A.rows_pos
  have hcolumns : interval A.rows (2 * A.rows) =
      ((List.finRange A.rows).map (Fin.natAdd A.cols)).map Fin.val := by
    have hwidth : 2 * A.rows - A.rows = A.rows := by omega
    rw [interval, hwidth, List.range'_eq_map_range, ← List.map_coe_finRange_eq_range, List.map_map,
      List.map_map, h]
    rfl
  have hentries : (G.selectColumns ((List.finRange A.rows).map (Fin.natAdd A.cols))).entries =
      G.rightPart.entries := by
    rw [← Grid.entries_selectColumns, Grid.rightPart, Grid.entries_ofFn]
    simp only [List.map_map]
    rfl
  rw [hcolumns, selectColumns_eq ⟨A.rows, A.cols + A.rows, A.rows_pos, hcols, G⟩ _ hne]
  have hlength : ((List.finRange A.rows).map (Fin.natAdd A.cols)).length = A.rows := by simp
  exact congrArg Except.ok (congrArg₂ (Table.mk A.rows) hlength hentries)

theorem inverse_eq (A : Mat) : (ofMat A).inverse = attempt (A.inverse.map ofMat) := by
  by_cases h : A.rows = A.cols
  · have hpos : 0 < A.cols + A.rows := Nat.add_pos_left A.cols_pos _
    let joined : Mat :=
      ⟨A.rows, A.cols + A.rows, A.rows_pos, hpos, A.grid.augment (Grid.identity A.rows)⟩
    have hjoined : (ofMat A).augment (ofMat (Mat.identity A.rows A.rows_pos)) =
        .ok (ofMat joined) := by
      have hrows : (Mat.identity A.rows A.rows_pos).rows = A.rows := rfl
      rw [augment_eq, Mat.augment, dif_pos hrows]
      rfl
    have hsquare : (ofMat A).rows = (ofMat A).cols := h
    rw [inverse, if_pos hsquare, rows_ofMat, identity_eq A.rows_pos, ok_bind, hjoined, ok_bind,
      eliminate_eq, Mat.inverse, if_pos h]
    show _ = attempt (((joined.eliminate .reduced).bind _).map ofMat)
    cases joined.eliminate .reduced with
    | error e => rfl
    | ok E =>
      show (if E.pivots.map Fin.val = List.range A.rows then _ else _) =
        attempt ((if E.pivots.map Fin.val = List.range A.rows then _ else _ :
          Except AlgebraError Mat).map ofMat)
      split
      · exact selectColumns_rightPart A h E.grid hpos
      · rfl
  · have hsquare : ¬(ofMat A).rows = (ofMat A).cols := h
    rw [inverse, if_neg hsquare, Mat.inverse, if_neg h]
    rfl

/-! Families. -/

theorem joined_eq (operation : String) (family : List Mat) :
    joined operation (family.map ofMat) = attempt ((Family.joined operation family).map ofMat) := by
  cases family with
  | nil => rfl
  | cons A rest => exact augmentAll_eq A rest

theorem span_eq (family : List Mat) :
    span (family.map ofMat) = attempt ((Family.span family).map ofMat) := by
  rw [span, joined_eq]
  exact attempt_bind columnSpace_eq

/-- What is asked of a family is asked of its members side by side. -/
theorem joined_bind {α : Type} {f : Mat → Except AlgebraError α}
    {F : Table → Checked AlgebraError α} (h : ∀ A, F (ofMat A) = attempt (f A))
    (operation : String) (family : List Mat) :
    (joined operation (family.map ofMat) >>= F) =
      attempt ((Family.joined operation family).bind f) := by
  rw [joined_eq]
  cases Family.joined operation family with
  | ok A => exact h A
  | error e => rfl

theorem dimension_eq (family : List Mat) :
    dimension (family.map ofMat) = attempt (Family.dimension family) :=
  joined_bind rank_eq "dim" family

theorem isIndependent_eq (family : List Mat) :
    isIndependent (family.map ofMat) = attempt (Family.isIndependent family) :=
  joined_bind (fun A => rank_map_eq A fun r => r == A.cols) "is_independent" family

theorem isBasis_eq (family : List Mat) :
    isBasis (family.map ofMat) = attempt (Family.isBasis family) := by
  refine joined_bind (fun A => ?_) "is_basis" family
  by_cases h : A.rows = A.cols
  · have hstored : (ofMat A).rows = (ofMat A).cols := h
    have hsquare : A.isSquare = true := beq_iff_eq.mpr h
    rw [if_pos hstored, if_pos hsquare]
    exact rank_map_eq A fun r => r == A.cols
  · have hstored : ¬(ofMat A).rows = (ofMat A).cols := h
    have hsquare : ¬A.isSquare = true := fun heq => h (beq_iff_eq.mp heq)
    rw [if_neg hstored, if_neg hsquare]
    rfl

theorem spans_eq (A B : Mat) : spans (ofMat A) (ofMat B) = attempt (Family.spans A B) := by
  unfold spans Family.spans
  rw [rows_ofMat, rows_ofMat]
  split
  · rw [rank_eq, augment_eq]
    cases A.rank with
    | error e => rfl
    | ok own =>
      cases A.augment B with
      | error e => rfl
      | ok both => exact rank_map_eq both fun joint => own == joint
  · rfl

end Storage.Table

end ExactLinear
