import ExactLinear.Mat.Basic

/- The entries of a grid in one list, row after row. The list has one place for each
   entry, at the number of its row times the width plus the number of its column; so
   a matrix is made again from its own entries. -/
namespace ExactLinear

namespace Grid
variable {m n : Nat}

/-- All entries, row after row. -/
def entries (A : Grid m n) : List Scalar := A.toRows.flatten

theorem entries_eq (A : Grid m n) : A.entries = A.rows.flatten.toList := by
  rw [Vector.flatten, Vector.toList, Array.toList_flatten, Array.toList_map, List.map_map]
  rfl

@[simp] theorem length_entries (A : Grid m n) : A.entries.length = m * n := by
  rw [entries_eq, Vector.length_toList]

/-! A place in the list is the place of one entry. -/

theorem position_div (i : Fin m) (j : Fin n) : (i.val * n + j.val) / n = i := by
  rw [Nat.add_comm, Nat.add_mul_div_right _ _ j.pos, Nat.div_eq_of_lt j.isLt, Nat.zero_add]

theorem position_mod (i : Fin m) (j : Fin n) : (i.val * n + j.val) % n = j := by
  rw [Nat.add_comm, Nat.add_mul_mod_self_right, Nat.mod_eq_of_lt j.isLt]

theorem position_inj {i i' : Fin m} {j j' : Fin n} :
    i.val * n + j.val = i'.val * n + j'.val ↔ i = i' ∧ j = j' := by
  refine ⟨?_, ?_⟩
  · intro h
    have hrow := congrArg (· / n) h
    have hcol := congrArg (· % n) h
    simp only [position_div, position_mod] at hrow hcol
    exact ⟨Fin.ext hrow, Fin.ext hcol⟩
  · intro h
    rw [h.1, h.2]

theorem getElem?_entries (A : Grid m n) (i : Fin m) (j : Fin n) :
    A.entries[i.val * n + j.val]? = some (A.get i j) := by
  have hlt := position_lt i.isLt j.isLt
  rw [entries_eq, List.getElem?_eq_getElem (by simpa using hlt), Vector.getElem_toList,
    Vector.getElem_flatten]
  simp only [position_div, position_mod]
  rfl

/-- A list with the right value in each place is the list of all entries. -/
theorem eq_entries {xs : List Scalar} {A : Grid m n} (hlength : xs.length = m * n)
    (hget : ∀ i j, xs[i.val * n + j.val]? = some (A.get i j)) : xs = A.entries := by
  apply List.ext_getElem?
  intro k
  by_cases hk : k < m * n
  · have hn : 0 < n := Nat.pos_of_mul_pos_left (Nat.zero_lt_of_lt hk)
    have hrow : k / n < m := Nat.div_lt_of_lt_mul (Nat.mul_comm m n ▸ hk)
    have hplace : k / n * n + k % n = k := Nat.div_add_mod' k n
    have hxs := hget ⟨k / n, hrow⟩ ⟨k % n, Nat.mod_lt k hn⟩
    have hentries := A.getElem?_entries ⟨k / n, hrow⟩ ⟨k % n, Nat.mod_lt k hn⟩
    rw [hplace] at hxs hentries
    rw [hxs, hentries]
  · rw [List.getElem?_eq_none (by omega), List.getElem?_eq_none (by simp; omega)]

theorem toRows_eq (A : Grid m n) :
    A.toRows = (List.finRange m).map fun i => (A.row i).toList := by
  apply List.ext_getElem
  · simp [toRows]
  · intro i _ _
    simp [toRows, row]

theorem toList_row (A : Grid m n) (i : Fin m) :
    (A.row i).toList = (List.finRange n).map (A.get i) := by
  apply List.ext_getElem
  · simp
  · intro j _ _
    simp [row, get]

theorem entries_eq_flatMap (A : Grid m n) :
    A.entries = (List.finRange m).flatMap fun i => (List.finRange n).map (A.get i) := by
  rw [entries, toRows_eq, List.flatMap_def]
  simp only [toList_row]

theorem ofValues_entries (A : Grid m n) (h : m * n = A.entries.toArray.size) :
    ofValues A.entries.toArray h = A := by
  apply ext_get
  intro i j
  have hget := A.getElem?_entries i j
  rw [List.getElem?_eq_getElem (by simpa using position_lt i.isLt j.isLt)] at hget
  rw [ofValues, get_ofFn]
  simpa using Option.some.inj hget

theorem entries_ofValues (values : List Scalar) (h : m * n = values.toArray.size) :
    (ofValues values.toArray h).entries = values := by
  refine (eq_entries (by simpa using h.symm) ?_).symm
  intro i j
  have hlt : i.val * n + j.val < values.length := by
    have hplace := position_lt i.isLt j.isLt
    simpa [h] using hplace
  rw [List.getElem?_eq_getElem hlt, ofValues, get_ofFn]
  rfl

theorem length_of_mem_toRows {A : Grid m n} {row : List Scalar} (h : row ∈ A.toRows) :
    row.length = n := by
  obtain ⟨v, -, rfl⟩ := List.mem_map.mp h
  exact v.length_toList

@[simp] theorem length_toRows (A : Grid m n) : A.toRows.length = m := by
  simp [toRows]

/-! Entries of grids that are made from other grids. -/

@[simp] theorem entries_cast {m' n' : Nat} (hm : m = m') (hn : n = n') (A : Grid m n) :
    (A.cast hm hn).entries = A.entries := by
  subst hm hn
  rfl

@[simp] theorem toList_row_cast {m' n' : Nat} (hm : m = m') (hn : n = n') (A : Grid m n)
    (i : Fin m') : ((A.cast hm hn).row i).toList = (A.row (i.cast hm.symm)).toList := by
  subst hm hn
  rfl

theorem entries_map (f : Scalar → Scalar) (A : Grid m n) : A.entries.map f = (A.map f).entries := by
  refine eq_entries (by simp) ?_
  intro i j
  simp [A.getElem?_entries]

theorem entries_zipWith (f : Scalar → Scalar → Scalar) (A B : Grid m n) :
    List.zipWith f A.entries B.entries = (zipWith f A B).entries := by
  refine eq_entries (by simp) ?_
  intro i j
  simp [List.getElem?_zipWith, A.getElem?_entries, B.getElem?_entries]

theorem entries_ofFn (f : Fin m → Fin n → Scalar) :
    (ofFn f).entries = (List.finRange m).flatMap fun i => (List.finRange n).map (f i) := by
  have hget : ∀ i, (ofFn f).get i = f i := fun i => by
    apply funext
    intro j
    exact get_ofFn f i j
  simp only [entries_eq_flatMap, hget]

theorem entries_augment {k : Nat} (A : Grid m n) (B : Grid m k) :
    ((List.finRange m).map fun i => (A.row i).toList ++ (B.row i).toList).flatten =
      (A.augment B).entries := by
  rw [entries, toRows_eq]
  refine congrArg List.flatten (List.map_congr_left fun i _ => ?_)
  simp [augment, row]

theorem entries_selectRows (A : Grid m n) (is : List (Fin m)) :
    (is.map fun i => (A.row i).toList).flatten = (A.selectRows is).entries := by
  rw [entries, toRows, selectRows]
  simp [Function.comp_def, Vector.toList]

theorem entries_selectColumns (A : Grid m n) (js : List (Fin n)) :
    ((List.finRange m).flatMap fun i => js.map (A.get i)) = (A.selectColumns js).entries := by
  rw [entries, toRows_eq, List.flatMap_def]
  refine congrArg List.flatten (List.map_congr_left fun i _ => ?_)
  simp [selectColumns, row, get, Vector.toList]

end Grid

namespace Mat

theorem ofValues_values (A : Mat) : ofValues A.rows A.cols A.values = .ok A := by
  have hsize : A.rows * A.cols = A.values.toArray.size := by
    rw [List.size_toArray]
    exact A.grid.length_entries.symm
  rw [ofValues, dif_neg (Nat.ne_of_gt A.rows_pos), dif_neg (Nat.ne_of_gt A.cols_pos),
    dif_pos hsize]
  exact congrArg (fun G => Except.ok (A.withGrid G)) (A.grid.ofValues_entries hsize)

theorem width_toRows (A : Mat) : width A.toRows = A.cols := by
  cases hrows : A.toRows with
  | nil =>
    have hlength := A.grid.length_toRows
    rw [show A.grid.toRows = [] from hrows] at hlength
    exact absurd hlength (Nat.ne_of_lt A.rows_pos)
  | cons row rest =>
    have hrow : row ∈ A.toRows := hrows ▸ List.mem_cons_self
    exact Grid.length_of_mem_toRows (A := A.grid) hrow

theorem raggedRow?_toRows (A : Mat) : raggedRow? A.cols A.toRows = none := by
  rw [raggedRow?, Option.map_eq_none_iff, List.find?_eq_none]
  intro r hr
  have hlength := Grid.length_of_mem_toRows (A := A.grid) (List.fst_mem_of_mem_zipIdx hr)
  simp [hlength]

/-- A matrix is made again from its rows. -/
theorem ofRows_toRows (A : Mat) : ofRows A.toRows = .ok A := by
  have hrows : A.toRows.length = A.rows := A.grid.length_toRows
  rw [ofRows, width_toRows, raggedRow?_toRows, hrows]
  exact A.ofValues_values

end Mat

end ExactLinear
