import ExactLinear.Proofs.Printed
import Mathlib.Algebra.Ring.Nat
import Mathlib.Data.List.FinRange
import Mathlib.Data.List.GetD
import Mathlib.Data.List.Infix

/- How the entries of a printed matrix are aligned. The width of a column is the
   length of its longest entry, so with one more blank in front of it every entry
   of the column fills the same number of characters, and the longest has that
   one blank only. Where a column ends follows from the widths up to it. -/
namespace ExactLinear

namespace Layout
variable {n : Nat} {gap size : Fin n → Nat} {cell : Fin n → List Char}

theorem upTo_prefix (gap : Fin n → Nat) (cell : Fin n → List Char) (j : Fin n) :
    upTo gap cell j <+: line gap cell := by
  refine List.cons_prefix_cons.mpr ⟨rfl, ?_⟩
  exact (List.take_prefix _ _).flatten.trans (List.prefix_append _ _)

/-! Lines of which the entries fill as many characters, each with its blanks. -/

theorem map_length_fields (h : ∀ j, gap j + (cell j).length = size j) :
    (fields gap cell).map List.length = List.ofFn size := by
  rw [fields, List.map_ofFn]
  refine congrArg List.ofFn (funext fun j => ?_)
  rw [Function.comp_apply, List.length_append, List.length_replicate, h]

theorem length_line (h : ∀ j, gap j + (cell j).length = size j) :
    (line gap cell).length = (List.ofFn size).sum + 3 := by
  rw [line, List.length_cons, List.length_append, List.length_flatten, map_length_fields h]
  rfl

theorem length_upTo (h : ∀ j, gap j + (cell j).length = size j) (j : Fin n) :
    (upTo gap cell j).length = ((List.ofFn size).take (j.val + 1)).sum + 1 := by
  rw [upTo, List.length_cons, List.length_flatten, List.map_take, map_length_fields h]

end Layout

namespace Mat

/-! Widths. -/

/-- Column by column the widths so far grow to the longest of the texts that follow. -/
theorem getD_foldl_widths {cols j : Nat} (hj : j < cols) {cells : List (List String)}
    (h : ∀ row ∈ cells, row.length = cols) {widths : List Nat} (hwidths : widths.length = cols) :
    (cells.foldl (fun widths row => List.zipWith (fun w cell => max w cell.length) widths row)
      widths).getD j 0 =
      (cells.map fun row => (row.getD j "").length).foldl max (widths.getD j 0) := by
  induction cells generalizing widths with
  | nil => rfl
  | cons row cells ih =>
    obtain ⟨hrow, hcells⟩ := List.forall_mem_cons.mp h
    have hlength : (List.zipWith (fun w (cell : String) => max w cell.length) widths row).length =
        cols := by
      rw [List.length_zipWith, hwidths, hrow, Nat.min_self]
    have hfirst : (List.zipWith (fun w (cell : String) => max w cell.length) widths row).getD j 0 =
        max (widths.getD j 0) (row.getD j "").length := by
      have hw : j < widths.length := hwidths ▸ hj
      have hr : j < row.length := hrow ▸ hj
      simp [List.getD_eq_getElem?_getD, hw, hr]
    rw [List.foldl_cons, ih hcells hlength, hfirst, List.map_cons, List.foldl_cons]

variable (A : Mat)

/-- The width of a column. -/
def columnWidth (j : Fin A.cols) : Nat := A.widths.getD j 0

theorem toRows_text :
    (A.toRows.map fun row => row.map Scalar.text) =
      List.ofFn fun i => List.ofFn fun j => Scalar.text (A.grid.get i j) := by
  rw [toRows, Grid.toRows_eq, List.map_map, List.ofFn_eq_map]
  refine List.map_congr_left fun i _ => ?_
  rw [Function.comp_apply, Grid.toList_row, List.map_map, List.ofFn_eq_map]
  rfl

theorem max?_length_cell (j : Fin A.cols) :
    (List.ofFn fun i => (A.cell i j).length).max? = some (A.columnWidth j) := by
  have hrows : ∀ row ∈ A.toRows.map fun row => row.map Scalar.text, row.length = A.cols :=
    List.forall_mem_map.mpr fun row hrow =>
      (List.length_map _).trans (Grid.length_of_mem_toRows hrow)
  have hcolumn : ((A.toRows.map fun row => row.map Scalar.text).map fun row =>
      (row.getD j "").length) = List.ofFn fun i => (A.cell i j).length := by
    rw [toRows_text, List.map_ofFn]
    refine congrArg List.ofFn (funext fun i => ?_)
    simp [cell, String.length_toList]
  have hwidth := getD_foldl_widths j.isLt hrows (List.length_replicate (n := A.cols) (a := 0))
  rw [hcolumn, List.foldl_max, List.getD_replicate 0 j.isLt, Nat.zero_max] at hwidth
  have hne : (List.ofFn fun i => (A.cell i j).length) ≠ [] := by
    rw [← List.length_pos_iff, List.length_ofFn]
    exact A.rows_pos
  obtain ⟨w, hw⟩ := Option.ne_none_iff_exists'.mp (mt List.max?_eq_none_iff.mp hne)
  rw [hw] at hwidth ⊢
  exact congrArg some hwidth.symm

theorem length_cell_le (i : Fin A.rows) (j : Fin A.cols) :
    (A.cell i j).length ≤ A.columnWidth j :=
  (List.max?_eq_some_iff.mp (A.max?_length_cell j)).2 _ (List.mem_ofFn.mpr ⟨i, rfl⟩)

theorem exists_length_cell (j : Fin A.cols) : ∃ i, (A.cell i j).length = A.columnWidth j :=
  List.mem_ofFn.mp (List.max?_eq_some_iff.mp (A.max?_length_cell j)).1

/-! Lines. -/

/-- The blanks in front of an entry. -/
def gap (i : Fin A.rows) (j : Fin A.cols) : Nat := A.columnWidth j - (A.cell i j).length + 1

theorem gap_add_length (i : Fin A.rows) (j : Fin A.cols) :
    A.gap i j + (A.cell i j).length = A.columnWidth j + 1 := by
  have hle := A.length_cell_le i j
  rw [gap]
  omega

theorem alignedCells_row (i : Fin A.rows) :
    alignedCells A.widths (List.ofFn fun j => Scalar.text (A.grid.get i j)) =
      (Layout.fields (A.gap i) (A.cell i)).flatten := by
  refine congrArg List.flatten (List.ext_getElem ?_ fun j _ hj => ?_)
  · simp [Layout.fields, length_widths]
  · have hcol : j < A.cols := by simpa [Layout.fields] using hj
    have hwidth : j < A.widths.length := A.length_widths.symm ▸ hcol
    simp [Layout.fields, gap, columnWidth, cell, toList_alignRight, hwidth, List.replicate_succ,
      String.length_toList]

theorem printedRows_eq :
    A.printedRows = List.ofFn fun i => Layout.line (A.gap i) (A.cell i) := by
  have hrows : A.printedRows = (A.toRows.map fun row => row.map Scalar.text).map fun row =>
      (rowText A.widths row).toList := by
    rw [List.map_map]
    rfl
  rw [hrows, toRows_text, List.map_ofFn]
  refine congrArg List.ofFn (funext fun i => ?_)
  rw [Function.comp_apply, toList_rowText, alignedCells_row]
  rfl

/-- The text has a line for each row and no other. -/
theorem splitOn_text : A.text.toList.splitOn '\n' = A.printedRows := by
  rw [toList_text]
  refine List.splitOn_intercalate '\n' (List.forall_mem_map.mpr fun row _ hmem => ?_) ?_
  · exact (plain_of_mem_rowText _ hmem).1 rfl
  · rw [printedRows_eq, ← List.length_pos_iff, List.length_ofFn]
    exact A.rows_pos

theorem blank_not_mem_cell (i : Fin A.rows) (j : Fin A.cols) : ' ' ∉ A.cell i j :=
  fun hmem => (Scalar.inNumber_of_mem_text _ hmem).ne_of_toNat (by decide) rfl

/-- A matrix is printed on one line for each row. In every column all entries end at the same
offset, and the fewest blanks in front of one of them are a single one. -/
theorem text_aligned :
    ∃ (gap : Fin A.rows → Fin A.cols → Nat) (stop : Fin A.cols → Nat) (length : Nat),
      A.text.toList.splitOn '\n' = (List.ofFn fun i => Layout.line (gap i) (A.cell i)) ∧
      (∀ i, (Layout.line (gap i) (A.cell i)).length = length) ∧
      (∀ i, ['['] <+: Layout.line (gap i) (A.cell i) ∧
        [' ', ']'] <:+ Layout.line (gap i) (A.cell i)) ∧
      (∀ i j, Layout.upTo (gap i) (A.cell i) j <+: Layout.line (gap i) (A.cell i) ∧
        (Layout.upTo (gap i) (A.cell i) j).length = stop j) ∧
      (∀ i j, A.cell i j ≠ [] ∧ ' ' ∉ A.cell i j ∧ 1 ≤ gap i j) ∧
      ∀ j, ∃ i, gap i j = 1 := by
  refine ⟨A.gap, fun j => ((List.ofFn fun j => A.columnWidth j + 1).take (j.val + 1)).sum + 1, _,
    A.splitOn_text.trans A.printedRows_eq, fun i => Layout.length_line (A.gap_add_length i),
    fun i => ⟨?_, ?_⟩,
    fun i j => ⟨Layout.upTo_prefix _ _ j, Layout.length_upTo (A.gap_add_length i) j⟩,
    fun i j => ⟨Scalar.text_ne_nil _, A.blank_not_mem_cell i j, Nat.le_add_left 1 _⟩, fun j => ?_⟩
  · exact List.prefix_append ['['] _
  · exact List.suffix_append ('[' :: (Layout.fields _ _).flatten) _
  · obtain ⟨i, hi⟩ := A.exists_length_cell j
    refine ⟨i, ?_⟩
    rw [gap, hi, Nat.sub_self]

example : (ofRows [[-2, 1], [3 / 2, -1 / 2]]).map text = .ok "[  -2    1 ]\n[ 3/2 -1/2 ]" := by
  decide +kernel

end Mat

end ExactLinear
