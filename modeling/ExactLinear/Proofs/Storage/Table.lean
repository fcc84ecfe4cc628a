import ExactLinear.Mat.Arithmetic
import ExactLinear.Mat.Selection
import ExactLinear.Mat.Space
import ExactLinear.Proofs.Entries
import ExactLinear.Proofs.Storage.Checked
import ExactLinear.Storage.Table

/- Operations on stored matrices. A stored matrix that comes from a matrix has an entry
   wherever one is looked for, so each operation does to it what it does to the
   matrix, is refused when that is refused, and stops the program in no case. -/
namespace ExactLinear.Storage

variable {ε : Type} {m n : Nat}

/-! Access to the entries of a grid. -/

theorem item_entries (G : Grid m n) (i : Fin m) (j : Fin n) :
    (item G.entries (i.val * n + j.val) : Checked ε Scalar) = .ok (G.get i j) :=
  item_eq_ok (G.getElem?_entries i j)

theorem slice_entries (G : Grid m n) (i : Fin m) :
    (slice G.entries (i.val * n) ((i.val + 1) * n) : Checked ε (List Scalar)) =
      .ok (G.row i).toList := by
  have hend : (i.val + 1) * n ≤ G.entries.length := by
    rw [G.length_entries]
    exact Nat.mul_le_mul_right n i.isLt
  have hfirst : i.val * n ≤ (i.val + 1) * n := Nat.mul_le_mul_right n (Nat.le_succ _)
  have hwidth : (i.val + 1) * n - i.val * n = n := by
    rw [Nat.succ_mul]
    omega
  rw [slice_eq_ok hfirst hend, hwidth]
  congr 1
  apply List.ext_getElem?
  intro j
  by_cases hj : j < n
  · rw [List.getElem?_take_of_lt hj, List.getElem?_drop, G.getElem?_entries i ⟨j, hj⟩,
      Vector.getElem?_toList, Vector.getElem?_eq_getElem hj]
    rfl
  · rw [List.getElem?_eq_none (by simp; omega), List.getElem?_eq_none (by simp; omega)]

namespace Table

@[simp] theorem rows_ofMat (A : Mat) : (ofMat A).rows = A.rows := rfl

@[simp] theorem cols_ofMat (A : Mat) : (ofMat A).cols = A.cols := rfl

theorem values_ofMat (A : Mat) : (ofMat A).values = A.grid.entries := rfl

theorem get_ofMat (A : Mat) {i j : Nat} (hi : i < A.rows) (hj : j < A.cols) :
    ((ofMat A).get i j : Checked ε Scalar) = .ok (A.grid.get ⟨i, hi⟩ ⟨j, hj⟩) := by
  rw [get, rows_ofMat, cols_ofMat, if_pos ⟨hi, hj⟩]
  exact item_entries A.grid ⟨i, hi⟩ ⟨j, hj⟩

theorem row_ofMat (A : Mat) {i : Nat} (hi : i < A.rows) :
    ((ofMat A).row i : Checked ε (List Scalar)) = .ok (A.grid.row ⟨i, hi⟩).toList :=
  slice_entries A.grid ⟨i, hi⟩

theorem withValues_ofMat (A : Mat) (G : Grid A.rows A.cols) :
    ((ofMat A).withValues G.entries : Checked ε Table) = .ok (ofMat (A.withGrid G)) := by
  rw [withValues, values_ofMat, G.length_entries, A.grid.length_entries, if_pos rfl]
  rfl

/-- The constructor that checks has nothing to object to in the entries of a grid. -/
theorem ofValues_entries (hm : 0 < m) (hn : 0 < n) (G : Grid m n) :
    ofValues m n G.entries = .ok (ofMat ⟨m, n, hm, hn, G⟩) := by
  rw [ofValues, if_neg (by omega), if_pos G.length_entries.symm]
  rfl

/-! Construction. -/

theorem eq_ofMat (hm : 0 < m) (hn : 0 < n) {xs : List Scalar} {G : Grid m n}
    (h : xs = G.entries) : (⟨m, n, xs⟩ : Table) = ofMat ⟨m, n, hm, hn, G⟩ := by
  rw [h]
  rfl

theorem ofValues_eq (rows cols : Nat) (values : List Scalar) :
    ofValues rows cols values = attempt ((Mat.ofValues rows cols values).map ofMat) := by
  by_cases hempty : rows = 0 ∨ cols = 0
  · have hmat : Mat.ofValues rows cols values = .error (.shape (.empty ⟨rows, cols⟩)) := by
      rw [Mat.ofValues]
      by_cases hrows : rows = 0
      · rw [dif_pos hrows]
      · rw [dif_neg hrows, dif_pos (hempty.resolve_left hrows)]
    rw [ofValues, if_pos hempty, hmat]
    rfl
  · obtain ⟨hrows, hcols⟩ := not_or.mp hempty
    rw [ofValues, if_neg hempty, Mat.ofValues, dif_neg hrows, dif_neg hcols]
    by_cases hsize : rows * cols = values.length
    · have harray : rows * cols = values.toArray.size := hsize
      rw [if_pos hsize, dif_pos harray]
      exact congrArg Except.ok (eq_ofMat _ _ (Grid.entries_ofValues values harray).symm)
    · have harray : ¬rows * cols = values.toArray.size := hsize
      rw [if_neg hsize, dif_neg harray]
      rfl

theorem product?_eq_some_iff {a b : UInt64} {count : Nat} (h : count < UInt64.size) :
    product? a b = some (.ofNat count) ↔ a.toNat * b.toNat = count := by
  unfold product?
  split
  · next hlt =>
    rw [Option.some_inj, ← UInt64.toNat_inj, UInt64.toNat_mul, UInt64.toNat_ofNat_of_lt' h,
      Nat.mod_eq_of_lt hlt]
  · next hge =>
    refine ⟨fun hnone => absurd hnone (Option.some_ne_none _).symm, fun hcount => ?_⟩
    exact absurd (hcount ▸ h) hge

/-- A list that can be held has no more values than a machine word counts. -/
theorem ofWords_eq (rows cols : UInt64) {values : List Scalar}
    (h : values.length ≤ Limit.entries) :
    ofWords rows cols values =
      attempt ((Mat.ofValues rows.toNat cols.toNat values).map ofMat) := by
  have hword : values.length < UInt64.size := Nat.lt_of_le_of_lt h (by decide)
  have hempty : (rows = 0 ∨ cols = 0) ↔ (rows.toNat = 0 ∨ cols.toNat = 0) := by
    rw [← UInt64.toNat_inj, ← UInt64.toNat_inj]
    rfl
  simp only [← ofValues_eq, ofWords, ofValues, hempty, product?_eq_some_iff hword]

-- As machine words, these two have the product zero, which is the number of values.
example : ofWords 4294967296 4294967296 [] =
    .error (.refusal (.shape (.unfilled 0 ⟨4294967296, 4294967296⟩))) := by
  rfl

theorem ofRows_eq (rows : List (List Scalar)) :
    ofRows rows = attempt ((Mat.ofRows rows).map ofMat) := by
  unfold ofRows Mat.ofRows
  cases Mat.raggedRow? (Mat.width rows) rows with
  | some r => rfl
  | none => exact ofValues_eq _ _ _

theorem identity_eq {n : Nat} (h : 0 < n) : identity n = .ok (ofMat (Mat.identity n h)) := by
  have hentries : ((List.range (n * n)).map fun i => if i / n = i % n then 1 else 0) =
      (Grid.identity n).entries := by
    refine Grid.eq_entries (by simp) ?_
    intro i j
    have hlt := Grid.position_lt i.isLt j.isLt
    simp [hlt, Grid.position_div, Nat.mod_eq_of_lt j.isLt, Grid.identity, Fin.ext_iff]
  rw [identity, hentries]
  exact ofValues_entries h h _

theorem zeros_eq (hm : 0 < m) (hn : 0 < n) : zeros m n = .ok (ofMat (Mat.zero m n hm hn)) := by
  have hentries : List.replicate (m * n) 0 = (Grid.zero m n).entries := by
    refine Grid.eq_entries (by simp) ?_
    intro i j
    simp [Grid.position_lt i.isLt j.isLt, Grid.zero]
  rw [zeros, hentries]
  exact ofValues_entries hm hn _

/-! Arithmetic. -/

theorem map_eq (f : Scalar → Scalar) (A : Mat) :
    ((ofMat A).map f : Checked ε Table) = .ok (ofMat (A.withGrid (A.grid.map f))) := by
  rw [map, values_ofMat, Grid.entries_map]
  exact withValues_ofMat A _

theorem neg_eq (A : Mat) : ((ofMat A).neg : Checked ε Table) = .ok (ofMat A.neg) := map_eq _ A

theorem scale_eq (q : Scalar) (A : Mat) :
    ((ofMat A).scale q : Checked ε Table) = .ok (ofMat (A.scale q)) := map_eq _ A

theorem divide_eq (A : Mat) (q : Scalar) :
    (ofMat A).divide q = attempt ((A.divide q).map ofMat) := by
  rw [divide, Mat.divide]
  cases Scalar.reciprocal q with
  | ok r => exact scale_eq r A
  | error e => rfl

theorem zipWith_eq (mismatch : ShapeError) (f : Scalar → Scalar → Scalar) (A B : Mat) :
    zipWith mismatch f (ofMat A) (ofMat B) =
      attempt ((if h : B.rows = A.rows ∧ B.cols = A.cols then
          Except.ok (A.withGrid (Grid.zipWith f A.grid (B.grid.cast h.1 h.2)))
        else .error (.shape mismatch)).map ofMat) := by
  by_cases h : B.rows = A.rows ∧ B.cols = A.cols
  · have hshape : (ofMat B).rows = (ofMat A).rows ∧ (ofMat B).cols = (ofMat A).cols := h
    have hentries : List.zipWith f A.grid.entries B.grid.entries =
        (Grid.zipWith f A.grid (B.grid.cast h.1 h.2)).entries := by
      rw [← Grid.entries_zipWith, Grid.entries_cast]
    rw [zipWith, if_pos hshape, dif_pos h]
    exact congrArg Except.ok (eq_ofMat A.rows_pos A.cols_pos hentries)
  · have hshape : ¬((ofMat B).rows = (ofMat A).rows ∧ (ofMat B).cols = (ofMat A).cols) := h
    rw [zipWith, if_neg hshape, dif_neg h]
    rfl

theorem add_eq (A B : Mat) : (ofMat A).add (ofMat B) = attempt ((A.add B).map ofMat) :=
  zipWith_eq _ _ A B

theorem sub_eq (A B : Mat) : (ofMat A).sub (ofMat B) = attempt ((A.sub B).map ofMat) :=
  zipWith_eq _ _ A B

theorem dot_eq (A B : Mat) (h : B.rows = A.cols) (i : Fin A.rows) (j : Fin B.cols) :
    ((ofMat A).dot (ofMat B) i j : Checked ε Scalar) =
      .ok (A.grid.dot (B.grid.cast h rfl) i j) := by
  rw [dot, cols_ofMat, ← List.map_coe_finRange_eq_range, List.foldlM_map, Grid.dot,
    Fin.foldl_eq_finRange_foldl]
  refine foldlM_eq_ok (k := id) (fun sum k => ?_) _ 0
  rw [get_ofMat A i.isLt k.isLt, get_ofMat B (Nat.lt_of_lt_of_eq k.isLt h.symm) j.isLt,
    Grid.get_cast]
  rfl

theorem mul_eq (A B : Mat) : (ofMat A).mul (ofMat B) = attempt ((A.mul B).map ofMat) := by
  unfold mul Mat.mul
  rw [rows_ofMat, cols_ofMat, rows_ofMat, cols_ofMat]
  by_cases h : B.rows = A.cols
  · have hvalues := mapM_pairs (ε := AlgebraError) (f := (ofMat A).dot (ofMat B)) (dot_eq A B h)
      (List.finRange A.rows) (List.finRange B.cols)
    rw [if_pos h, dif_pos h, ← List.map_coe_finRange_eq_range, ← List.map_coe_finRange_eq_range,
      hvalues, ← Grid.entries_ofFn]
    exact ofValues_entries A.rows_pos B.cols_pos _
  · rw [if_neg h, dif_neg h]
    rfl

theorem augment_eq (A B : Mat) :
    (ofMat A).augment (ofMat B) = attempt ((A.augment B).map ofMat) := by
  by_cases h : B.rows = A.rows
  · have hshape : (ofMat B).rows = (ofMat A).rows := h
    have hrows : (List.range (ofMat A).rows).mapM (fun i => do
        let left ← (ofMat A).row i
        let right ← (ofMat B).row i
        return left ++ right) = (.ok ((List.finRange A.rows).map fun i =>
          (A.grid.row i).toList ++ ((B.grid.cast h rfl).row i).toList) :
            Checked AlgebraError (List (List Scalar))) := by
      rw [rows_ofMat, ← List.map_coe_finRange_eq_range, List.mapM_map]
      refine mapM_eq_ok fun i _ => ?_
      rw [Function.comp_apply, row_ofMat A i.isLt, row_ofMat B (Nat.lt_of_lt_of_eq i.isLt h.symm),
        Grid.toList_row_cast]
      rfl
    rw [augment, if_pos hshape, hrows, Mat.augment, dif_pos h, ok_bind, Grid.entries_augment]
    exact ofValues_entries _ _ _
  · have hshape : ¬(ofMat B).rows = (ofMat A).rows := h
    rw [augment, if_neg hshape, Mat.augment, dif_neg h]
    rfl

theorem augmentAll_eq (A : Mat) (rest : List Mat) :
    (ofMat A).augmentAll (rest.map ofMat) = attempt ((A.augmentAll rest).map ofMat) := by
  induction rest generalizing A with
  | nil => rfl
  | cons B rest ih =>
    rw [augmentAll, List.map_cons, List.foldlM_cons, augment_eq, Mat.augmentAll]
    cases A.augment B with
    | ok joined => exact ih joined
    | error e => rfl

/-! Rearrangement. -/

theorem transpose_eq (A : Mat) :
    ((ofMat A).transpose : Checked ε Table) = .ok (ofMat A.transpose) := by
  have hvalues := mapM_pairs (ε := ε) (f := fun j i => (ofMat A).get i j)
    (fun j i => get_ofMat A i.isLt j.isLt) (List.finRange A.cols) (List.finRange A.rows)
  rw [transpose, cols_ofMat, rows_ofMat, ← List.map_coe_finRange_eq_range,
    ← List.map_coe_finRange_eq_range, hvalues]
  exact congrArg Except.ok (eq_ofMat _ _ (Grid.entries_ofFn _).symm)

theorem selectColumns_eq (A : Mat) (js : List (Fin A.cols)) (h : js ≠ []) :
    ((ofMat A).selectColumns (js.map Fin.val) : Checked ε Table) =
      .ok (ofMat (A.selectColumns js h)) := by
  have hvalues := mapM_pairs (ε := ε) (f := (ofMat A).get)
    (fun i j => get_ofMat A i.isLt j.isLt) (List.finRange A.rows) js
  rw [selectColumns, if_neg (by simpa using h), rows_ofMat, ← List.map_coe_finRange_eq_range,
    hvalues, List.length_map]
  exact congrArg Except.ok (eq_ofMat _ _ (A.grid.entries_selectColumns js))

theorem selectRows_eq (A : Mat) (is : List (Fin A.rows)) (h : is ≠ []) :
    ((ofMat A).selectRows (is.map Fin.val) : Checked ε Table) = .ok (ofMat (A.selectRows is h)) := by
  have hrows : (is.map Fin.val).mapM (ofMat A).row =
      (.ok (is.map fun i => (A.grid.row i).toList) : Checked ε (List (List Scalar))) := by
    rw [List.mapM_map]
    exact mapM_eq_ok fun i _ => row_ofMat A i.isLt
  rw [selectRows, if_neg (by simpa using h), hrows, List.length_map]
  exact congrArg Except.ok (eq_ofMat _ _ (A.grid.entries_selectRows is))

end Table

end ExactLinear.Storage
