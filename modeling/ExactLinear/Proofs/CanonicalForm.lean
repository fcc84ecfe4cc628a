import ExactLinear.Proofs.Elimination.Replay

/- The reduced form of a matrix. It is in reduced form, and it is canonical: two
   matrices have the same one exactly when row operations that can be undone lead
   from the one to the other. From left to right the way goes through the common
   reduced form, down one log and up the other; from right to left the null
   vectors are kept all along, and they determine a reduced form. -/
namespace ExactLinear

/-- A finite sequence of row operations that can be undone leads from the one matrix to the
other. -/
def Mat.RowReaches (A B : Mat) : Prop :=
  ∃ ops : List (RowOp A.rows),
    (∀ op ∈ ops, op.Invertible) ∧ A.withGrid (RowOp.applyAll ops A.grid) = B

namespace Elimination
variable {m n : Nat} {A B : Grid m n} {E F : Elimination m n}

/-- The reduced form is the only reduced grid with the same null vectors. -/
theorem Eliminates.grid_eq_of_sameNull (hE : Eliminates A .reduced E) {S : Grid m n}
    {p : List (Fin n)} (hS : S.IsReduced p) (h : Grid.SameNull A S) :
    E.grid = S ∧ E.pivots = p := by
  have hES : Grid.SameNull E.grid S := hE.sameNull.symm.trans h
  exact ⟨hE.isReduced.eq_of_sameNull hS hES, hE.isReduced.pivots_eq hS hES⟩

theorem Eliminates.grid_eq_iff (hE : Eliminates A .reduced E) (hF : Eliminates B .reduced F) :
    E.grid = F.grid ↔
      ∃ ops : List (RowOp m), (∀ op ∈ ops, op.Invertible) ∧ RowOp.applyAll ops A = B := by
  refine ⟨?_, ?_⟩
  · intro h
    -- Down the log of the one, and up the log of the other.
    refine ⟨E.operations ++ RowOp.undo F.operations, ?_, ?_⟩
    · intro op hop
      rcases List.mem_append.mp hop with hop | hop
      · exact hE.replays.invertible op hop
      · exact RowOp.invertible_of_mem_undo hF.replays.invertible op hop
    · rw [RowOp.applyAll_append, hE.replays.replay, h, ← hF.replays.replay]
      exact RowOp.applyAll_undo hF.replays.invertible B
  · intro hreach
    obtain ⟨ops, hops, rfl⟩ := hreach
    have h : Grid.SameNull A F.grid := (RowOp.sameNull_applyAll hops A).trans hF.sameNull
    exact (hE.grid_eq_of_sameNull hF.isReduced h).1

end Elimination

namespace Mat

theorem reduced_eq {A : Mat} {E : Elimination A.rows A.cols}
    (h : Elimination.Eliminates A.grid .reduced E) : A.reduced = .ok (A.withGrid E.grid) := by
  rw [reduced, eliminate, h.eliminate_eq]
  rfl

/-- Reduction succeeds, the result is in reduced form with the pivot columns that elimination
reports, and it is the same for two matrices exactly when row operations that can be undone lead
from the one to the other. -/
theorem reduced_canonical (A : Mat) :
    (∃ E, A.eliminate .reduced = .ok E ∧ A.reduced = .ok (A.withGrid E.grid) ∧
      E.grid.IsReduced E.pivots) ∧
    ∀ B : Mat, A.reduced = B.reduced ↔ A.RowReaches B := by
  obtain ⟨E, hE⟩ := Elimination.exists_eliminates A.grid .reduced
  refine ⟨⟨E, hE.eliminate_eq, reduced_eq hE, hE.isReduced⟩, ?_⟩
  intro B
  refine ⟨?_, ?_⟩
  · obtain ⟨F, hF⟩ := Elimination.exists_eliminates B.grid .reduced
    rw [reduced_eq hE, reduced_eq hF]
    intro h
    obtain ⟨m, n, hm, hn, G⟩ := A
    obtain ⟨m', n', hm', hn', H⟩ := B
    simp only [withGrid, Except.ok.injEq, mk.injEq] at h
    obtain ⟨rfl, rfl, hgrid⟩ := h
    obtain ⟨ops, hops, hreach⟩ := (hE.grid_eq_iff hF).mp (eq_of_heq hgrid)
    exact ⟨ops, hops, congrArg (withGrid _) hreach⟩
  · intro hreach
    obtain ⟨ops, hops, rfl⟩ := hreach
    obtain ⟨F, hF⟩ := Elimination.exists_eliminates (RowOp.applyAll ops A.grid) .reduced
    have hgrid : E.grid = F.grid := (hE.grid_eq_iff hF).mpr ⟨ops, hops, rfl⟩
    have hB : (A.withGrid (RowOp.applyAll ops A.grid)).reduced = .ok (A.withGrid F.grid) :=
      reduced_eq (A := A.withGrid (RowOp.applyAll ops A.grid)) hF
    rw [reduced_eq hE, hB, hgrid]

end Mat

end ExactLinear
