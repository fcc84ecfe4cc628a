import ExactLinear.Mat.Echelon
import ExactLinear.Proofs.Elimination.Ascent

/- The log of an elimination, played back. At every point of a run the grid is
   what the operations noted so far make of the grid at the start, and each of
   them can be undone (`Work.Replays`): a swap is noted for two different rows
   only, a scaling divides by a pivot, and a row is cleared with another row. So
   the result has the null vectors of the start. -/
namespace ExactLinear

variable {m n : Nat}

namespace Work

/-- The log of the work leads from the grid `A` to its own grid, by operations that can be
undone. -/
structure Replays (A : Grid m n) (w : Work m n) : Prop where
  replay : RowOp.applyAll w.operations A = w.grid
  invertible : ∀ op ∈ w.operations, op.Invertible

theorem Replays.recordAll {A : Grid m n} {w : Work m n} (h : w.Replays A) {ops : List (RowOp m)}
    (hops : ∀ op ∈ ops, op.Invertible) : (w.recordAll ops).Replays A where
  replay := by rw [operations_recordAll, RowOp.applyAll_append, h.replay, grid_recordAll]
  invertible := by
    intro op hop
    rw [operations_recordAll] at hop
    rcases List.mem_append.mp hop with hop | hop
    · exact h.invertible op hop
    · exact hops op hop

theorem invertible_of_mem_clearing {A : Grid m n} {r : Fin m} {c : Fin n}
    {targets : List (Fin m)} (hr : r ∉ targets) :
    ∀ op ∈ clearing A r c targets, op.Invertible := by
  intro op hop
  obtain ⟨t, ht, _, rfl⟩ := mem_clearing.mp hop
  show t ≠ r
  exact fun h => hr (h ▸ ht)

end Work

namespace Elimination

theorem invertible_of_mem_swapping (r found : Fin m) :
    ∀ op ∈ swapping r found, op.Invertible := by
  intro op hop
  unfold swapping at hop
  split at hop
  · exact absurd hop List.not_mem_nil
  · next hne =>
    rw [List.mem_singleton.mp hop]
    show found ≠ r
    exact hne

theorem invertible_of_mem_scaling (mode : Mode) {pivot : Scalar} (h : pivot ≠ 0) (r : Fin m) :
    ∀ op ∈ scaling mode pivot r, op.Invertible := by
  intro op hop
  unfold scaling at hop
  split at hop
  · rw [List.mem_singleton.mp hop]
    show 1 / pivot ≠ 0
    exact one_div_ne_zero h
  · exact absurd hop List.not_mem_nil

theorem invertible_of_mem_pivoting (mode : Mode) {A : Grid m n} (r : Fin m) {found : Fin m}
    {c : Fin n} (h : A.get found c ≠ 0) :
    ∀ op ∈ pivoting mode A r found c, op.Invertible := by
  intro op hop
  simp only [pivoting, placing, List.mem_append] at hop
  rcases hop with (hop | hop) | hop
  · exact invertible_of_mem_swapping r found op hop
  · exact invertible_of_mem_scaling mode h r op hop
  · exact Work.invertible_of_mem_clearing (by simp) op hop

theorem Descends.replays {A : Grid m n} {mode : Mode} {E E' : Elimination m n}
    {cs : List (Fin n)} (hrun : Descends mode E cs E') (h : E.Replays A) : E'.Replays A := by
  induction hrun with
  | done E => exact h
  | full _ => exact h
  | free _ _ _ ih => exact ih h
  | pivot _ hfound _ ih =>
    exact ih (h.recordAll (invertible_of_mem_pivoting mode _ (pivotRow?_eq_some hfound).2))

theorem Ascends.replays {A : Grid m n} {w w' : Work m n} {places : List (Fin m × Fin n)}
    (hrun : Ascends w places w') (h : w.Replays A) : w'.Replays A := by
  induction hrun with
  | done => exact h
  | clear _ _ ih => exact ih.recordAll (Work.invertible_of_mem_clearing (by simp))

namespace Eliminates
variable {A : Grid m n} {mode : Mode} {E : Elimination m n}

theorem replays (h : Eliminates A mode E) : E.Replays A := by
  have hstart : (start A).Replays A := ⟨rfl, fun _ hop => absurd hop List.not_mem_nil⟩
  cases h with
  | echelon down => exact down.replays hstart
  | reduced down up => exact up.replays (down.replays hstart)

theorem sameNull (h : Eliminates A mode E) : Grid.SameNull A E.grid := by
  rw [← h.replays.replay]
  exact RowOp.sameNull_applyAll h.replays.invertible A

end Eliminates

end Elimination

/-- Elimination succeeds. Its operations, played back on the matrix in order, give its result;
each of them can be undone, its rows being rows of the matrix by their type; and the result
sends the same column vectors to zero. -/
theorem Mat.eliminate_replays (A : Mat) (mode : Mode) :
    ∃ E, A.eliminate mode = .ok E ∧
      RowOp.applyAll E.operations A.grid = E.grid ∧
      (∀ op ∈ E.operations, op.Invertible) ∧
      ∀ x : Grid A.cols 1,
        A.grid.mul x = Grid.zero A.rows 1 ↔ E.grid.mul x = Grid.zero A.rows 1 := by
  obtain ⟨E, h⟩ := Elimination.exists_eliminates A.grid mode
  exact ⟨E, h.eliminate_eq, h.replays.replay, h.replays.invertible, h.sameNull.mul_eq_zero_iff⟩

end ExactLinear
