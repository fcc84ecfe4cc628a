import ExactLinear.Mat.Selection
import Mathlib.Data.List.FinRange

/- Rows and columns taken out of a matrix by their numbers. That succeeds exactly for a
   list with a member all of whose members are in range, and then gives the rows or
   columns at the indices with these numbers. A range of numbers gives the columns
   next to each other that it names. -/
namespace ExactLinear.Mat

variable {n k : Nat}

/-! Numbers that are in range. -/

theorem indices_eq_ok_iff {fault : Nat → Fault} {js : List Nat} {is : List (Fin n)} :
    indices n fault js = .ok is ↔ is.map Fin.val = js := by
  refine ⟨?_, ?_⟩
  · intro h
    induction js generalizing is with
    | nil =>
      obtain rfl := Except.ok.inj h
      rfl
    | cons j js ih =>
      rw [indices] at h
      split at h
      · next hj =>
        cases hrest : indices n fault js with
        | ok rest =>
          rw [hrest] at h
          obtain rfl := Except.ok.inj h
          rw [List.map_cons, ih hrest]
        | error e =>
          rw [hrest] at h
          cases h
      · cases h
  · intro h
    rw [← h]
    exact indices_map_val fault is

theorem exists_map_val_iff {js : List Nat} :
    (∃ is : List (Fin n), is.map Fin.val = js) ↔ ∀ j ∈ js, j < n := by
  refine ⟨?_, ?_⟩
  · intro h j hj
    obtain ⟨is, rfl⟩ := h
    obtain ⟨i, -, rfl⟩ := List.mem_map.mp hj
    exact i.isLt
  · intro h
    refine ⟨js.pmap Fin.mk h, ?_⟩
    rw [List.map_pmap, List.pmap_eq_map, List.map_id']

variable (A : Mat)

theorem columnsAt_eq_ok_iff {js : List Nat} {S : Mat} :
    A.columnsAt js = .ok S ↔
      ∃ (is : List (Fin A.cols)) (h : is ≠ []), is.map Fin.val = js ∧ S = A.selectColumns is h := by
  refine ⟨?_, ?_⟩
  · intro h
    rw [columnsAt] at h
    split at h
    · cases h
    · next i rest hindices =>
      exact ⟨i :: rest, _, indices_eq_ok_iff.mp hindices, (Except.ok.inj h).symm⟩
    · cases h
  · intro h
    obtain ⟨is, hne, rfl, rfl⟩ := h
    exact A.columnsAt_map_val is hne

theorem rowsAt_eq_ok_iff {is : List Nat} {S : Mat} :
    A.rowsAt is = .ok S ↔
      ∃ (js : List (Fin A.rows)) (h : js ≠ []), js.map Fin.val = is ∧ S = A.selectRows js h := by
  refine ⟨?_, ?_⟩
  · intro h
    rw [rowsAt] at h
    split at h
    · cases h
    · next j rest hindices =>
      exact ⟨j :: rest, _, indices_eq_ok_iff.mp hindices, (Except.ok.inj h).symm⟩
    · cases h
  · intro h
    obtain ⟨js, hne, rfl, rfl⟩ := h
    rw [rowsAt, indices_map_val]
    cases js with
    | nil => exact absurd rfl hne
    | cons j js => rfl

theorem exists_columnsAt_iff {js : List Nat} :
    (∃ S, A.columnsAt js = .ok S) ↔ js ≠ [] ∧ ∀ j ∈ js, j < A.cols := by
  simp only [columnsAt_eq_ok_iff, ← exists_map_val_iff]
  refine ⟨?_, ?_⟩
  · intro h
    obtain ⟨_, is, hne, rfl, rfl⟩ := h
    exact ⟨by simpa using hne, is, rfl⟩
  · intro h
    obtain ⟨hne, is, rfl⟩ := h
    exact ⟨_, is, by simpa using hne, rfl, rfl⟩

/-! Columns next to each other. -/

/-- Columns taken out one by one. -/
theorem selectColumns_map (f : Fin k → Fin A.cols) (hpos : 0 < k)
    (h : (List.finRange k).map f ≠ []) :
    A.selectColumns ((List.finRange k).map f) h =
      ⟨A.rows, k, A.rows_pos, hpos, Grid.ofFn fun i j => A.grid.get i (f j)⟩ := by
  have hlength : ((List.finRange k).map f).length = k := by simp
  have hget : ∀ (j : Fin k) (hj : j.val < ((List.finRange k).map f).length),
      ((List.finRange k).map f)[j.val] = f j := by simp
  generalize (List.finRange k).map f = js at *
  subst hlength
  simp only [selectColumns, mk.injEq, heq_eq_eq, true_and]
  apply Grid.ext_get
  intro i j
  rw [Grid.get_selectColumns, Grid.get_ofFn]
  exact congrArg (A.grid.get i) (hget j j.isLt)

/-- The `k` columns from number `first` on. -/
theorem columnsAt_range' {first : Nat} (hpos : 0 < k) (h : first + k ≤ A.cols) :
    A.columnsAt (List.range' first k) =
      .ok ⟨A.rows, k, A.rows_pos, hpos, Grid.ofFn fun i j => A.grid.get i ⟨first + j, by omega⟩⟩ := by
  let f : Fin k → Fin A.cols := fun j => ⟨first + j, by omega⟩
  have hrange : List.range' first k = ((List.finRange k).map f).map Fin.val := by
    rw [List.range'_eq_map_range, ← List.map_coe_finRange_eq_range, List.map_map, List.map_map]
    rfl
  have hne : (List.finRange k).map f ≠ [] := by
    simpa using Nat.ne_of_gt hpos
  rw [hrange, columnsAt_map_val A _ hne, selectColumns_map A f hpos]

/-- A range within a matrix is looked at as a whole, unless its numbers are too many to list. -/
theorem columnRange_eq {first last : Nat} (h : last ≤ A.cols) :
    A.columnRange first last =
      if Limit.indices < last - first then .error (.tooMany (last - first))
      else A.columnsAt (List.range' first (last - first)) := by
  have hcount : min (last - first) (A.cols + 1) = last - first := by omega
  rw [columnRange, hcount]

end ExactLinear.Mat
