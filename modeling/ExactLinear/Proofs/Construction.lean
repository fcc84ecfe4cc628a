import ExactLinear.Proofs.Entries
import ExactLinear.Proofs.Fitting
import ExactLinear.Proofs.Storage.Table

/- Matrices from lists. A list of values is taken for a shape that it fills, and a list
   of rows when all rows are as long as the first, which has an entry. What comes out
   has exactly these values (`gives_ofValues`) and exactly these rows
   (`gives_ofRows`), so each entry is where the lists have it. A list of rows that
   is refused for their lengths is refused for the first row that differs from
   row 0 (`raggedRow?_eq_some_iff`). -/
namespace ExactLinear.Mat

/-! Contents of a matrix. -/

theorem getElem?_toRows (A : Mat) (i : Fin A.rows) :
    A.toRows[i.val]? = some (A.grid.row i).toList := by
  rw [toRows, Grid.toRows_eq]
  simp

theorem lt_of_getElem?_toRows {A : Mat} {i : Nat} {row : List Scalar}
    (h : A.toRows[i]? = some row) : i < A.rows := by
  obtain ⟨hi, _⟩ := List.getElem?_eq_some_iff.mp h
  exact Nat.lt_of_lt_of_eq hi A.grid.length_toRows

theorem row_of_getElem?_toRows {A : Mat} {i : Nat} {row : List Scalar}
    (h : A.toRows[i]? = some row) : A.row i = .ok row := by
  have hi := lt_of_getElem?_toRows h
  have hrow := A.getElem?_toRows ⟨i, hi⟩
  rw [Mat.row, dif_pos hi]
  exact congrArg Except.ok (Option.some.inj (hrow.symm.trans h))

theorem entry_of_getElem?_toRows {A : Mat} {i j : Nat} {row : List Scalar} {q : Scalar}
    (h : A.toRows[i]? = some row) (hq : row[j]? = some q) : A.entry i j = .ok q := by
  have hi := lt_of_getElem?_toRows h
  obtain rfl := Option.some.inj ((A.getElem?_toRows ⟨i, hi⟩).symm.trans h)
  rw [Vector.getElem?_toList] at hq
  obtain ⟨hj, rfl⟩ := Vector.getElem?_eq_some_iff.mp hq
  exact dif_pos ⟨hi, hj⟩

theorem exists_entry (A : Mat) {i j : Nat} (hi : i < A.rows) (hj : j < A.cols) :
    ∃ q, A.values[i * A.cols + j]? = some q ∧ A.entry i j = .ok q :=
  ⟨_, A.grid.getElem?_entries ⟨i, hi⟩ ⟨j, hj⟩, dif_pos ⟨hi, hj⟩⟩

/-! From values. -/

theorem gives_ofValues (rows cols : Nat) (values : List Scalar) :
    Gives (1 ≤ rows ∧ 1 ≤ cols ∧ rows * cols = values.length) (ofValues rows cols values)
      fun A => A.rows = rows ∧ A.cols = cols ∧ A.values = values := by
  constructor
  case result =>
    intro h
    obtain ⟨hrows, hcols, hlength⟩ := h
    have hsize : rows * cols = values.toArray.size := hlength
    rw [ofValues, dif_neg (Nat.ne_of_gt hrows), dif_neg (Nat.ne_of_gt hcols), dif_pos hsize]
    exact ⟨_, rfl, rfl, rfl, Grid.entries_ofValues values hsize⟩
  case refusal =>
    intro h
    unfold ofValues
    split
    · exact ⟨_, rfl⟩
    · next hrows =>
      split
      · exact ⟨_, rfl⟩
      · next hcols =>
        have hsize : ¬rows * cols = values.toArray.size := fun hsize =>
          h ⟨Nat.pos_of_ne_zero hrows, Nat.pos_of_ne_zero hcols, hsize⟩
        exact ⟨_, dif_neg hsize⟩

/-! From rows. -/

theorem raggedRow?_eq_none_iff {cols : Nat} {rows : List (List Scalar)} :
    raggedRow? cols rows = none ↔ ∀ row ∈ rows, row.length = cols := by
  rw [raggedRow?, Option.map_eq_none_iff, List.find?_eq_none]
  refine ⟨fun h row hrow => ?_, fun h r hr => ?_⟩
  · obtain ⟨i, hi⟩ := List.mem_iff_getElem?.mp hrow
    simpa using h (row, i) (List.mk_mem_zipIdx_iff_getElem?.mpr hi)
  · simp [h r.1 (List.fst_mem_of_mem_zipIdx hr)]

/-- The row that is reported is the first of another length. -/
theorem raggedRow?_eq_some_iff {cols i found : Nat} {rows : List (List Scalar)} :
    raggedRow? cols rows = some (i, found) ↔
      ∃ row, rows[i]? = some row ∧ row.length = found ∧ found ≠ cols ∧
        ∀ k other, k < i → rows[k]? = some other → other.length = cols := by
  simp only [raggedRow?, Option.map_eq_some_iff, List.find?_eq_some_iff_getElem,
    List.getElem_zipIdx, List.length_zipIdx, Nat.zero_add, bne_iff_ne, ne_eq, Bool.not_eq_true',
    bne_eq_false_iff_eq]
  refine ⟨?_, ?_⟩
  · rintro ⟨r, ⟨hne, k, hk, rfl, hbefore⟩, hr⟩
    obtain ⟨rfl, rfl⟩ := Prod.mk.inj hr
    refine ⟨rows[k], List.getElem?_eq_getElem hk, rfl, hne, ?_⟩
    intro l other hl hother
    obtain ⟨_, rfl⟩ := List.getElem?_eq_some_iff.mp hother
    exact hbefore l hl
  · rintro ⟨row, hrow, rfl, hne, hbefore⟩
    obtain ⟨hi, rfl⟩ := List.getElem?_eq_some_iff.mp hrow
    refine ⟨(rows[i], i), ⟨hne, i, hi, rfl, ?_⟩, rfl⟩
    intro l hl
    exact hbefore l _ hl (List.getElem?_eq_getElem (hl.trans hi))

theorem width_of_head? {rows : List (List Scalar)} {first : List Scalar}
    (h : rows.head? = some first) : width rows = first.length := by
  rw [width, h]
  rfl

theorem map_length_eq_replicate {cols : Nat} {rows : List (List Scalar)}
    (h : ∀ row ∈ rows, row.length = cols) :
    rows.map List.length = List.replicate rows.length cols := by
  rw [List.map_congr_left h, List.map_const']

/-- Rows of one length fill a shape when there are some and they have an entry. -/
theorem fills_iff {rows : List (List Scalar)} (h : ∀ row ∈ rows, row.length = width rows) :
    (1 ≤ rows.length ∧ 1 ≤ width rows ∧ rows.length * width rows = rows.flatten.length) ↔
      ∃ first, rows.head? = some first ∧ first ≠ [] ∧ ∀ row ∈ rows, row.length = first.length := by
  have hflatten : rows.length * width rows = rows.flatten.length := by
    rw [List.length_flatten, map_length_eq_replicate h, List.sum_replicate_nat]
  cases rows with
  | nil => simp
  | cons first rest =>
    refine ⟨?_, ?_⟩
    · intro hfills
      exact ⟨first, rfl, List.ne_nil_of_length_pos hfills.2.1, h⟩
    · rintro ⟨_, hfirst, hne, _⟩
      obtain rfl := Option.some.inj hfirst
      exact ⟨Nat.le_add_left 1 _, List.length_pos_iff.mpr hne, hflatten⟩

/-- Rows of one length are told apart by the list of all their entries. -/
theorem toRows_eq_of_values_eq {A : Mat} {rows : List (List Scalar)}
    (hvalues : A.values = rows.flatten) (hrows : A.rows = rows.length)
    (hcols : ∀ row ∈ rows, row.length = A.cols) : A.toRows = rows := by
  have hlength : A.toRows.length = rows.length := A.grid.length_toRows.trans hrows
  refine List.eq_iff_flatten_eq.mpr ⟨hvalues, ?_⟩
  rw [map_length_eq_replicate hcols, ← hlength]
  exact map_length_eq_replicate fun row => Grid.length_of_mem_toRows

theorem gives_ofRows (rows : List (List Scalar)) :
    Gives
      (∃ first, rows.head? = some first ∧ first ≠ [] ∧ ∀ row ∈ rows, row.length = first.length)
      (ofRows rows) fun A => A.toRows = rows := by
  unfold ofRows
  cases hragged : raggedRow? (width rows) rows with
  | some r =>
    refine ⟨fun h => ?_, fun _ => ⟨_, rfl⟩⟩
    obtain ⟨first, hfirst, _, hlengths⟩ := h
    rw [width_of_head? hfirst, raggedRow?_eq_none_iff.mpr hlengths] at hragged
    cases hragged
  | none =>
    have hlengths := raggedRow?_eq_none_iff.mp hragged
    refine ((gives_ofValues rows.length (width rows) rows.flatten).mono ?_).congr
      (fills_iff hlengths)
    rintro A ⟨hrows, hcols, hvalues⟩
    exact toRows_eq_of_values_eq hvalues hrows fun row hrow => hcols ▸ hlengths row hrow

theorem ofRows_of_ragged {rows : List (List Scalar)} {first : List Scalar}
    (hfirst : rows.head? = some first) (hdiffer : ∃ row ∈ rows, row.length ≠ first.length) :
    ∃ i row, rows[i]? = some row ∧ row.length ≠ first.length ∧
      (∀ k other, k < i → rows[k]? = some other → other.length = first.length) ∧
      ofRows rows = .error (.shape (.ragged i row.length first.length)) := by
  unfold ofRows
  rw [width_of_head? hfirst]
  cases hragged : raggedRow? first.length rows with
  | none =>
    obtain ⟨row, hrow, hne⟩ := hdiffer
    exact absurd (raggedRow?_eq_none_iff.mp hragged row hrow) hne
  | some r =>
    obtain ⟨row, hrow, hfound, hne, hbefore⟩ := raggedRow?_eq_some_iff.mp hragged
    exact ⟨r.1, row, hrow, hfound ▸ hne, hbefore, by rw [hfound]⟩

example : ofRows [[1], [2], [3, 4], []] = .error (.shape (.ragged 2 2 1)) := by
  rfl

/-- A list of rows makes a matrix exactly if it has a first row, that one has an entry and all are
as long; then rows and entries are where the list has them. A list of values makes a matrix of a
shape exactly if neither number of the shape is zero and their product is the number of values;
then entries are found by counting through whole rows, and the same comes out when the shape is
given in machine words. A matrix is made again from its rows, and from its shape and its values.
Rows of different lengths are refused for the first one that is not as long as row 0. -/
theorem construction_laws :
    (∀ rows : List (List Scalar),
      Gives
        (∃ first, rows.head? = some first ∧ first ≠ [] ∧ ∀ row ∈ rows, row.length = first.length)
        (ofRows rows) fun A =>
          A.rows = rows.length ∧
          ∀ i row, rows[i]? = some row → row.length = A.cols ∧ A.row i = .ok row ∧
            ∀ j q, row[j]? = some q → A.entry i j = .ok q) ∧
    (∀ (rows cols : Nat) (values : List Scalar),
      Gives (1 ≤ rows ∧ 1 ≤ cols ∧ rows * cols = values.length) (ofValues rows cols values)
        fun A =>
          A.rows = rows ∧ A.cols = cols ∧
          ∀ i j, i < rows → j < cols →
            ∃ q, values[i * cols + j]? = some q ∧ A.entry i j = .ok q) ∧
    (∀ (rows cols : UInt64) (values : List Scalar), values.length ≤ Limit.entries →
      Storage.Table.ofWords rows cols values =
        Storage.attempt ((ofValues rows.toNat cols.toNat values).map Storage.Table.ofMat)) ∧
    (∀ A : Mat, ofRows A.toRows = .ok A ∧ ofValues A.rows A.cols A.values = .ok A) ∧
    ∀ (rows : List (List Scalar)) (first : List Scalar), rows.head? = some first →
      (∃ row ∈ rows, row.length ≠ first.length) →
      ∃ i row, rows[i]? = some row ∧ row.length ≠ first.length ∧
        (∀ k other, k < i → rows[k]? = some other → other.length = first.length) ∧
        ofRows rows = .error (.shape (.ragged i row.length first.length)) := by
  refine ⟨fun rows => ?_, fun rows cols values => ?_, fun rows cols values =>
    Storage.Table.ofWords_eq rows cols, fun A => ⟨A.ofRows_toRows, A.ofValues_values⟩, ?_⟩
  · refine (gives_ofRows rows).mono fun A hA => ?_
    subst hA
    refine ⟨A.grid.length_toRows.symm, fun i row hrow => ⟨?_, row_of_getElem?_toRows hrow, ?_⟩⟩
    · exact Grid.length_of_mem_toRows (List.mem_of_getElem? hrow)
    · intro j q hq
      exact entry_of_getElem?_toRows hrow hq
  · refine (gives_ofValues rows cols values).mono fun A hA => ?_
    obtain ⟨rfl, rfl, rfl⟩ := hA
    exact ⟨rfl, rfl, fun i j hi hj => A.exists_entry hi hj⟩
  · intro rows first hfirst hdiffer
    exact ofRows_of_ragged hfirst hdiffer

end ExactLinear.Mat
