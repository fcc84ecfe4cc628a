import ExactLinear.Mat.Text
import ExactLinear.Proofs.Entries
import ExactLinear.Proofs.Lines
import ExactLinear.Syntax.Writing

/- What printed values look like. A scalar is printed without white space, brackets
   or line breaks, so the entries of a printed matrix are the words of its lines, and
   typing it in again gives back the text of each entry. -/
namespace ExactLinear

/-! Scalars. -/

/-- The characters of printed scalars. -/
def InNumber (c : Char) : Prop := c.isDigit = true ∨ c = '-' ∨ c = '/'

namespace InNumber
variable {c : Char}

theorem toNat_bounds (h : InNumber c) : 45 ≤ c.toNat ∧ c.toNat ≤ 57 := by
  rcases h with hdigit | rfl | rfl
  · have hbounds : 48 ≤ c.toNat ∧ c.toNat ≤ 57 := Char.isDigit_iff_toNat.mp hdigit
    omega
  · decide
  · decide

theorem not_isBlank (h : InNumber c) : Blank.isBlank c = false := by
  have hbounds := h.toNat_bounds
  simp [Blank.isBlank, Blank.ranges]
  omega

theorem ne_of_toNat {d : Char} (h : InNumber c) (hd : d.toNat < 45 ∨ 57 < d.toNat) : c ≠ d := by
  have hbounds := h.toNat_bounds
  intro hc
  rw [hc] at hbounds
  omega

end InNumber

namespace Scalar

theorem inNumber_of_mem_repr {n : Nat} : ∀ c ∈ (Nat.repr n).toList, InNumber c := by
  intro c hc
  rw [Nat.toList_repr] at hc
  exact .inl (Nat.isDigit_of_mem_toDigits (by decide) (by decide) hc)

theorem inNumber_of_mem_integerText {z : Int} : ∀ c ∈ (integerText z).toList, InNumber c := by
  unfold integerText
  split
  · rw [String.toList_append]
    exact List.forall_mem_cons.mpr ⟨.inr (.inl rfl), inNumber_of_mem_repr⟩
  · exact inNumber_of_mem_repr

theorem inNumber_of_mem_text {q : Scalar} : ∀ c ∈ (text q).toList, InNumber c := by
  unfold text
  split
  · exact inNumber_of_mem_integerText
  · rw [String.toList_append, String.toList_append]
    refine List.forall_mem_append.mpr
      ⟨List.forall_mem_append.mpr ⟨inNumber_of_mem_integerText, ?_⟩, inNumber_of_mem_repr⟩
    exact List.forall_mem_singleton.mpr (.inr (.inr rfl))

theorem text_ne_nil (q : Scalar) : (text q).toList ≠ [] := by
  have hrepr : ∀ n, (Nat.repr n).toList ≠ [] := fun n => by
    rw [Nat.toList_repr]
    exact Nat.toDigits_ne_nil
  have hinteger : (integerText q.num).toList ≠ [] := by
    unfold integerText
    split
    · simp
    · exact hrepr _
  unfold text
  split
  · exact hinteger
  · simp

end Scalar

/-! Lines. -/

/-- Lines without line breaks are the lines of the text made of them. -/
theorem Lines.split_intercalate {lines : List (List Char)} (hne : ∀ line ∈ lines, line ≠ [])
    (h : ∀ line ∈ lines, ∀ c ∈ line, c ≠ '\n' ∧ c ≠ '\r') :
    split '\n' '\r' (['\n'].intercalate lines) = lines := by
  induction lines with
  | nil => rfl
  | cons line lines ih =>
    obtain ⟨hline, hlines⟩ := List.forall_mem_cons.mp h
    have hbreak : '\n' ∉ line := fun hmem => (hline _ hmem).1 rfl
    cases lines with
    | nil =>
      obtain ⟨c, cs, rfl⟩ := List.exists_cons_of_ne_nil (hne line List.mem_cons_self)
      rw [List.intercalate_singleton, split_of_not_mem hbreak]
    | cons next lines =>
      obtain ⟨front, hsplit, hfront⟩ := split_lineFeed hbreak (['\n'].intercalate (next :: lines))
      have hsame : line = front := by
        rcases hfront with hfront | hfront
        · exact hfront
        · have hreturn : '\r' ∈ line := hfront ▸ List.mem_append_right _ List.mem_cons_self
          exact absurd rfl (hline _ hreturn).2
      rw [List.intercalate_cons_cons, List.append_assoc, List.singleton_append, hsplit, ← hsame,
        ih (List.forall_mem_cons.mp hne).2 hlines]

/-! Rows. -/

namespace Mat

/-- The entries of a printed row, each after a blank and aligned to its width. -/
def alignedCells (widths : List Nat) (row : List String) : List Char :=
  (List.zipWith (fun w cell => ' ' :: (alignRight w cell).toList) widths row).flatten

theorem toList_alignRight (width : Nat) (cell : String) :
    (alignRight width cell).toList = List.replicate (width - cell.length) ' ' ++ cell.toList := by
  rw [alignRight, String.toList_append, String.toList_ofList]

theorem toList_rowText (widths : List Nat) (row : List String) :
    (rowText widths row).toList = '[' :: (alignedCells widths row ++ [' ', ']']) := by
  simp [rowText, alignedCells, String.toList_join, List.flatMap_def, List.map_zipWith]

theorem head?_alignedCells (widths : List Nat) (row : List String) :
    ∀ c ∈ (alignedCells widths row).head?, c = ' ' := by
  cases widths <;> cases row <;> simp [alignedCells]

theorem words_alignedCells {widths : List Nat} {row : List String}
    (hlength : widths.length = row.length)
    (h : ∀ cell ∈ row, cell.toList ≠ [] ∧ ∀ c ∈ cell.toList, Blank.isBlank c = false) :
    Words.split (alignedCells widths row) = row.map String.toList := by
  induction row generalizing widths with
  | nil =>
    obtain rfl := List.length_eq_zero_iff.mp hlength
    rfl
  | cons cell row ih =>
    obtain ⟨⟨hne, hcell⟩, hrow⟩ := List.forall_mem_cons.mp h
    obtain ⟨w, widths, rfl⟩ := List.exists_cons_of_length_eq_add_one hlength
    -- The word of the first cell ends where the next cell begins, which is with a blank.
    have hblank : ∀ c ∈ (alignedCells widths row).head?, Blank.isBlank c = true := by
      intro c hc
      rw [head?_alignedCells widths row c hc]
      rfl
    show Words.split (' ' :: (alignRight w cell).toList ++ alignedCells widths row) = _
    rw [List.cons_append, Words.split_blank rfl, Words.split_append hblank, toList_alignRight,
      Words.split_spaces, Words.split_word hne hcell, ih (Nat.succ.inj hlength) hrow]
    rfl

theorem unbracketed_row {cs : List Char} (h : ∀ c ∈ cs.head?, c = ' ') :
    Retyped.unbracketed ('[' :: (cs ++ [' ', ']'])) = cs ++ [' '] := by
  have hfront : (cs ++ [' ', ']']).dropWhile Retyped.isBracket = cs ++ [' ', ']'] := by
    cases cs with
    | nil => rfl
    | cons c cs =>
      obtain rfl := h c rfl
      rfl
  have hback : (cs ++ [' ', ']']).reverse = ']' :: ' ' :: cs.reverse := by simp
  rw [Retyped.unbracketed, List.dropWhile_cons_of_pos rfl, hfront, hback,
    List.dropWhile_cons_of_pos rfl, List.dropWhile_cons_of_neg (by decide)]
  simp

/-- The words of a printed row are the texts of its entries. -/
theorem words_rowText {widths : List Nat} {row : List Scalar}
    (hlength : widths.length = row.length) :
    Words.split (Retyped.unbracketed (rowText widths (row.map Scalar.text)).toList) =
      row.map fun q => (Scalar.text q).toList := by
  have hcells : ∀ cell ∈ row.map Scalar.text,
      cell.toList ≠ [] ∧ ∀ c ∈ cell.toList, Blank.isBlank c = false :=
    List.forall_mem_map.mpr fun q _ =>
      ⟨Scalar.text_ne_nil q, fun c hc => (Scalar.inNumber_of_mem_text c hc).not_isBlank⟩
  rw [toList_rowText, unbracketed_row (head?_alignedCells _ _), Words.split_append_blank rfl,
    words_alignedCells (by simpa using hlength) hcells]
  simp

theorem mem_alignedCells {widths : List Nat} {row : List String} :
    ∀ c ∈ alignedCells widths row, c = ' ' ∨ ∃ cell ∈ row, c ∈ cell.toList := by
  intro c hc
  induction row generalizing widths with
  | nil => cases widths <;> cases hc
  | cons cell row ih =>
    cases widths with
    | nil => cases hc
    | cons w widths =>
      have hsplit : c ∈ ' ' :: (alignRight w cell).toList ++ alignedCells widths row := hc
      rw [toList_alignRight] at hsplit
      simp only [List.cons_append, List.mem_cons, List.mem_append, List.mem_replicate] at hsplit
      rcases hsplit with hblank | (⟨-, hblank⟩ | hcell) | hrest
      · exact .inl hblank
      · exact .inl hblank
      · exact .inr ⟨cell, List.mem_cons_self, hcell⟩
      · rcases ih hrest with hblank | ⟨other, hother, hcell⟩
        · exact .inl hblank
        · exact .inr ⟨other, List.mem_cons_of_mem _ hother, hcell⟩

theorem plain_of_mem_rowText {widths : List Nat} {row : List Scalar} :
    ∀ c ∈ (rowText widths (row.map Scalar.text)).toList, c ≠ '\n' ∧ c ≠ '\r' := by
  intro c hc
  simp only [toList_rowText, List.mem_cons, List.mem_append, List.not_mem_nil, or_false] at hc
  rcases hc with rfl | hcells | rfl | rfl
  · decide
  · rcases mem_alignedCells c hcells with rfl | ⟨cell, hcell, hc⟩
    · decide
    · obtain ⟨q, -, rfl⟩ := List.mem_map.mp hcell
      have hnumber := Scalar.inNumber_of_mem_text c hc
      exact ⟨hnumber.ne_of_toNat (by decide), hnumber.ne_of_toNat (by decide)⟩
  · decide
  · decide

/-! Matrices. -/

theorem length_columnWidths {cols : Nat} {cells : List (List String)}
    (h : ∀ row ∈ cells, row.length = cols) : (columnWidths cols cells).length = cols := by
  suffices hfold : ∀ widths : List Nat, widths.length = cols →
      (cells.foldl (fun widths row => List.zipWith (fun w cell => max w cell.length) widths row)
        widths).length = cols by
    exact hfold _ List.length_replicate
  induction cells with
  | nil => exact fun _ hwidths => hwidths
  | cons row cells ih =>
    obtain ⟨hrow, hcells⟩ := List.forall_mem_cons.mp h
    intro widths hwidths
    exact ih hcells _ (by simp [hwidths, hrow])

/-- The widths to which the entries of a printed matrix are aligned. -/
def widths (A : Mat) : List Nat := columnWidths A.cols (A.toRows.map fun row => row.map Scalar.text)

theorem length_widths (A : Mat) : A.widths.length = A.cols := by
  refine length_columnWidths (List.forall_mem_map.mpr fun row hrow => ?_)
  rw [List.length_map]
  exact Grid.length_of_mem_toRows hrow

/-- The lines of a printed matrix, as the characters that they are. -/
def printedRows (A : Mat) : List (List Char) :=
  A.toRows.map fun row => (rowText A.widths (row.map Scalar.text)).toList

theorem toList_text (A : Mat) : A.text.toList = ['\n'].intercalate A.printedRows := by
  rw [text, String.toList_intercalate, List.map_map, List.map_map]
  rfl

theorem lines_text (A : Mat) : Lines.split '\n' '\r' A.text.toList = A.printedRows := by
  rw [toList_text]
  refine Lines.split_intercalate (List.forall_mem_map.mpr fun row _ => ?_)
    (List.forall_mem_map.mpr fun row _ => plain_of_mem_rowText)
  rw [toList_rowText]
  exact List.cons_ne_nil _ _

/-- A printed matrix, typed in again, lists the texts of its entries row by row. -/
theorem retyped_text (A : Mat) :
    (Retyped.matrix A.text).toList =
      Retyped.bracketed (A.toRows.map fun row =>
        Retyped.bracketed (row.map fun q => (Scalar.text q).toList)) := by
  rw [Retyped.matrix, String.toList_ofList, lines_text, printedRows, List.map_map]
  refine congrArg Retyped.bracketed (List.map_congr_left fun row hrow => ?_)
  have hlength : row.length = A.cols := Grid.length_of_mem_toRows hrow
  exact congrArg Retyped.bracketed (words_rowText (A.length_widths.trans hlength.symm))

example : Retyped.matrix "[  -2    1 ]\n[ 3/2 -1/2 ]" = "[[-2, 1], [3/2, -1/2]]" := by decide

end Mat

end ExactLinear
