import ExactLinear.Elimination
import ExactLinear.Proofs.RowOp

/- Clearing a column, without its log and without its failures. The operations
   that `Work.clear` decides on one after another, each from the grid as it then
   is, are the ones that the grid at the start tells (`clearing`): no target row
   changes before its turn. With a nonzero pivot none of the divisions fails
   (`clearColumn_eq`), and the entries afterwards are given by one formula
   (`get_applyAll_clearing`). -/
namespace ExactLinear

namespace Scalar

theorem divide_of_ne_zero (a : Scalar) {b : Scalar} (hb : b ≠ 0) : divide a b = .ok (a / b) :=
  if_neg hb

theorem reciprocal_of_ne_zero {a : Scalar} (ha : a ≠ 0) : reciprocal a = .ok (1 / a) :=
  divide_of_ne_zero 1 ha

end Scalar

namespace Work
variable {m n : Nat}

/-! Lists of recorded operations. -/

/-- Performs the listed operations in order and notes them. -/
def recordAll (w : Work m n) (ops : List (RowOp m)) : Work m n := ops.foldl record w

@[simp] theorem recordAll_nil (w : Work m n) : w.recordAll [] = w := rfl

@[simp] theorem recordAll_cons (w : Work m n) (op : RowOp m) (ops : List (RowOp m)) :
    w.recordAll (op :: ops) = (w.record op).recordAll ops := rfl

theorem recordAll_append (w : Work m n) (first later : List (RowOp m)) :
    w.recordAll (first ++ later) = (w.recordAll first).recordAll later :=
  List.foldl_append

@[simp] theorem grid_recordAll (w : Work m n) (ops : List (RowOp m)) :
    (w.recordAll ops).grid = RowOp.applyAll ops w.grid := by
  induction ops generalizing w with
  | nil => rfl
  | cons op ops ih => rw [recordAll_cons, ih, RowOp.applyAll_cons, record]

@[simp] theorem operations_record (w : Work m n) (op : RowOp m) :
    (w.record op).operations = w.operations ++ [op] := by
  simp [operations, record]

@[simp] theorem operations_recordAll (w : Work m n) (ops : List (RowOp m)) :
    (w.recordAll ops).operations = w.operations ++ ops := by
  induction ops generalizing w with
  | nil => simp
  | cons op ops ih => rw [recordAll_cons, ih, operations_record, List.append_assoc]; rfl

/-! The operations of a clearing. -/

/-- The operations that clear column `c` in the target rows, as the grid before them tells. -/
def clearing (A : Grid m n) (r : Fin m) (c : Fin n) (targets : List (Fin m)) : List (RowOp m) :=
  targets.filterMap fun t =>
    if A.get t c = 0 then none else some (.replace t r (-(A.get t c / A.get r c)))

theorem clearing_cons (A : Grid m n) (r : Fin m) (c : Fin n) (t : Fin m) (rest : List (Fin m)) :
    clearing A r c (t :: rest) =
      if A.get t c = 0 then clearing A r c rest
      else .replace t r (-(A.get t c / A.get r c)) :: clearing A r c rest := by
  rw [clearing, List.filterMap_cons]
  split
  · next h => rw [if_pos (by simpa using h)]; rfl
  · next op h =>
    split at h
    · cases h
    · next hne =>
      rw [if_neg hne]
      cases h
      rfl

theorem mem_clearing {A : Grid m n} {r : Fin m} {c : Fin n} {targets : List (Fin m)}
    {op : RowOp m} :
    op ∈ clearing A r c targets ↔
      ∃ t ∈ targets, A.get t c ≠ 0 ∧ op = .replace t r (-(A.get t c / A.get r c)) := by
  simp only [clearing, List.mem_filterMap]
  refine ⟨?_, ?_⟩
  · intro h
    obtain ⟨t, ht, h⟩ := h
    split at h
    · cases h
    · next hne => exact ⟨t, ht, hne, (Option.some.inj h).symm⟩
  · intro h
    obtain ⟨t, ht, hne, rfl⟩ := h
    exact ⟨t, ht, by rw [if_neg hne]⟩

/-- Every target row loses its multiple of row `r`, and no other row changes. The multiples are
those of `A`; the grid that is changed may be another one. -/
theorem get_applyAll_clearing (A B : Grid m n) {r : Fin m} (c : Fin n) {targets : List (Fin m)}
    (hr : r ∉ targets) (hnodup : targets.Nodup) (i : Fin m) (j : Fin n) :
    (RowOp.applyAll (clearing A r c targets) B).get i j =
      if i ∈ targets then B.get i j - A.get i c / A.get r c * B.get r j else B.get i j := by
  induction targets generalizing B with
  | nil => simp [clearing]
  | cons t rest ih =>
    obtain ⟨hrt, hrest⟩ := List.ne_and_not_mem_of_not_mem_cons hr
    obtain ⟨ht, hnodup⟩ := List.nodup_cons.mp hnodup
    rw [clearing_cons]
    split
    · next hzero =>
      -- No operation for this row, and none is called for: its multiple is zero.
      rw [ih B hrest hnodup]
      by_cases hit : i = t
      · subst hit
        simp [ht, hzero]
      · simp [hit]
    · rw [RowOp.applyAll_cons, ih _ hrest hnodup]
      simp only [RowOp.get_apply_replace, if_neg hrt]
      by_cases hit : i = t
      · subst hit
        rw [if_neg ht, if_pos rfl, if_pos List.mem_cons_self]
        ring
      · simp [hit]

/-! Clearing does not fail. -/

/-- In the middle of a clearing: the rows that are still to be cleared have the entries in
column `c` that they had in the grid `A` at the start. -/
theorem clear_eq {A : Grid m n} {r : Fin m} {c : Fin n} (hpivot : A.get r c ≠ 0)
    (w : Work m n) {targets : List (Fin m)} (hr : r ∉ targets) (hnodup : targets.Nodup)
    (hsame : ∀ t ∈ targets, w.grid.get t c = A.get t c) :
    w.clear (A.get r c) r c targets = .ok (w.recordAll (clearing A r c targets)) := by
  induction targets generalizing w with
  | nil => rfl
  | cons t rest ih =>
    obtain ⟨hrt, hrest⟩ := List.ne_and_not_mem_of_not_mem_cons hr
    obtain ⟨ht, hnodup⟩ := List.nodup_cons.mp hnodup
    obtain ⟨hwt, hsame⟩ := List.forall_mem_cons.mp hsame
    rw [clear, clearing_cons, hwt]
    split
    · exact ih w hrest hnodup hsame
    · rw [Scalar.divide_of_ne_zero _ hpivot]
      -- A later target is another row than this one, so it is still as it was.
      apply ih _ hrest hnodup
      intro s hs
      have hst : s ≠ t := fun h => ht (h ▸ hs)
      rw [record, RowOp.get_apply_replace, if_neg hst]
      exact hsame s hs

theorem clearColumn_eq {w : Work m n} {r : Fin m} {c : Fin n} (hpivot : w.grid.get r c ≠ 0)
    {targets : List (Fin m)} (hr : r ∉ targets) (hnodup : targets.Nodup) :
    w.clearColumn r c targets = .ok (w.recordAll (clearing w.grid r c targets)) :=
  clear_eq hpivot w hr hnodup fun _ _ => rfl

end Work

namespace Elimination
variable {m : Nat}

@[simp] theorem mem_rowsBelow {r i : Fin m} : i ∈ rowsBelow r ↔ r < i := by simp [rowsBelow]

@[simp] theorem mem_rowsAbove {r i : Fin m} : i ∈ rowsAbove r ↔ i < r := by simp [rowsAbove]

theorem nodup_rowsBelow (r : Fin m) : (rowsBelow r).Nodup := (List.nodup_finRange m).filter _

theorem nodup_rowsAbove (r : Fin m) : (rowsAbove r).Nodup := (List.nodup_finRange m).filter _

end Elimination

end ExactLinear
