import ExactLinear.Proofs.Elimination.Ascent
import ExactLinear.Proofs.Evaluation.Outcome
import ExactLinear.Proofs.Storage.Table
import ExactLinear.Storage.Elimination

/- Elimination of a stored matrix. The buffer holds the entries of the grid that is
   worked on, after every cell that is changed; so the numbers that the two passes
   find are those of rows and columns of the grid, and none of them is out of range. -/
namespace ExactLinear

variable {m n : Nat}

/-! Grids changed entry by entry. -/

namespace Grid

/-- The grid with another value in one entry. -/
def put (G : Grid m n) (i : Fin m) (j : Fin n) (x : Scalar) : Grid m n :=
  ofFn fun i' j' => if i' = i ∧ j' = j then x else G.get i' j'

/-- The grid with one column made from what it was. -/
def mapColumn (f : (Fin m → Scalar) → Fin m → Scalar) (G : Grid m n) (j : Fin n) : Grid m n :=
  ofFn fun i k => if k = j then f (fun i' => G.get i' k) i else G.get i k

theorem get_foldl_mapColumn (f : (Fin m → Scalar) → Fin m → Scalar) {js : List (Fin n)}
    (hjs : js.Nodup) (G : Grid m n) (i : Fin m) (k : Fin n) :
    (js.foldl (mapColumn f) G).get i k =
      if k ∈ js then f (fun i' => G.get i' k) i else G.get i k := by
  induction js generalizing G with
  | nil => simp
  | cons j js ih =>
    obtain ⟨hj, hjs⟩ := List.nodup_cons.mp hjs
    rw [List.foldl_cons, ih hjs]
    by_cases hk : k = j
    · subst hk
      simp [hj, mapColumn]
    · simp [hk, mapColumn]

theorem entries_put (G : Grid m n) (i : Fin m) (j : Fin n) (x : Scalar) :
    G.entries.set (i.val * n + j.val) x = (G.put i j x).entries := by
  refine eq_entries (by simp) ?_
  intro i' j'
  have hlt : i.val * n + j.val < G.entries.length := by
    simpa using position_lt i.isLt j.isLt
  rw [List.getElem?_set, if_pos hlt, put, get_ofFn, G.getElem?_entries]
  simp only [position_inj, eq_comm]
  split <;> rfl

end Grid

namespace Storage

variable {ε : Type}

theorem replaceItem_entries (G : Grid m n) (i : Fin m) (j : Fin n) (x : Scalar) :
    (replaceItem G.entries (i.val * n + j.val) x : Checked ε (List Scalar)) =
      .ok (G.put i j x).entries := by
  rw [replaceItem, if_pos (by simpa using Grid.position_lt i.isLt j.isLt), Grid.entries_put]

namespace Buffer

/-- A buffer that holds the entries of a grid. -/
def ofGrid (G : Grid m n) : Buffer := ⟨m, n, G.entries⟩

theorem get_ofGrid (G : Grid m n) (i : Fin m) (j : Fin n) :
    ((ofGrid G).get i j : Checked ε Scalar) = .ok (G.get i j) := item_entries G i j

/-! Row operations. -/

theorem eachColumn_eq {change : List Scalar → Nat → Checked ε (List Scalar)}
    {f : (Fin m → Scalar) → Fin m → Scalar} {G H : Grid m n}
    (hchange : ∀ (K : Grid m n) j, change K.entries j.val = .ok (K.mapColumn f j).entries)
    (hH : ∀ i j, H.get i j = f (fun i' => G.get i' j) i) :
    (ofGrid G).eachColumn change = .ok (ofGrid H) := by
  have hfold : (List.finRange n).foldl (Grid.mapColumn f) G = H := by
    apply Grid.ext_get
    intro i j
    rw [Grid.get_foldl_mapColumn f (List.nodup_finRange n), if_pos (List.mem_finRange j), hH]
  have hcells : (List.range n).foldlM change G.entries = .ok H.entries := by
    rw [← List.map_coe_finRange_eq_range, List.foldlM_map, ← hfold]
    exact foldlM_eq_ok (k := Grid.entries) hchange _ G
  show (do let cells ← (List.range n).foldlM change G.entries; _) = _
  rw [hcells]
  rfl

theorem swapRows_eq (G : Grid m n) (i j : Fin m) :
    ((ofGrid G).swapRows i j : Checked ε Buffer) = .ok (ofGrid ((RowOp.swap i j).apply G)) := by
  refine eachColumn_eq (f := fun v x => v (Equiv.swap i j x)) (fun K c => ?_)
    (RowOp.get_apply_swap i j G)
  -- Both cells are read before either is changed, so equal rows do no harm.
  have hput : (K.put i c (K.get j c)).put j c (K.get i c) =
      K.mapColumn (fun v x => v (Equiv.swap i j x)) c := by
    apply Grid.ext_get
    intro x y
    simp only [Grid.put, Grid.mapColumn, Grid.get_ofFn, Equiv.swap_apply_def]
    grind
  simp only [ofGrid, item_entries, replaceItem_entries, ok_bind, hput]

theorem replaceRow_eq (G : Grid m n) (t s : Fin m) (q : Scalar) :
    ((ofGrid G).replaceRow t s q : Checked ε Buffer) =
      .ok (ofGrid ((RowOp.replace t s q).apply G)) := by
  refine eachColumn_eq (f := fun v x => if x = t then v x + q * v s else v x) (fun K c => ?_)
    (RowOp.get_apply_replace t s q G)
  have hput : K.put t c (K.get t c + q * K.get s c) =
      K.mapColumn (fun v x => if x = t then v x + q * v s else v x) c := by
    apply Grid.ext_get
    intro x y
    simp only [Grid.put, Grid.mapColumn, Grid.get_ofFn]
    grind
  simp only [ofGrid, item_entries, replaceItem_entries, ok_bind, hput]

theorem entries_scale (G : Grid m n) (i : Fin m) (q : Scalar) :
    G.entries.take (i * n) ++ (G.row i).toList.map (· * q) ++ G.entries.drop ((i + 1) * n) =
      ((RowOp.scale i q).apply G).entries := by
  have hend : i.val * n + n ≤ m * n := by
    rw [← Nat.succ_mul]
    exact Nat.mul_le_mul_right n i.isLt
  have hnext : (i.val + 1) * n = i.val * n + n := Nat.succ_mul _ _
  have htake : (G.entries.take (i * n)).length = i * n := by
    rw [List.length_take, G.length_entries, Nat.min_eq_left (by omega)]
  refine Grid.eq_entries (by simp; omega) ?_
  intro x y
  have hget := G.getElem?_entries x y
  rw [RowOp.get_apply_scale]
  -- The row of the entry is in front of the scaled one, is it, or is behind it.
  rcases Nat.lt_trichotomy x i with hlt | heq | hgt
  · have hbefore : (x.val + 1) * n ≤ i * n := Nat.mul_le_mul_right n hlt
    rw [Nat.succ_mul] at hbefore
    rw [if_neg (Fin.ne_of_lt hlt), List.append_assoc,
      List.getElem?_append_left (by omega), List.getElem?_take_of_lt (by omega), hget]
  · obtain rfl := Fin.ext heq
    have hrow : (G.row x).toList[y.val]? = some (G.get x y) := by
      simp [Grid.row, Grid.get]
    rw [if_pos rfl, List.append_assoc, List.getElem?_append_right (by omega), htake,
      Nat.add_sub_cancel_left, List.getElem?_append_left (by simp), List.getElem?_map, hrow]
    rfl
  · have hbehind : (i.val + 1) * n ≤ x * n := Nat.mul_le_mul_right n hgt
    rw [if_neg (Fin.ne_of_gt hgt), List.getElem?_append_right (by simp; omega),
      List.getElem?_drop, List.length_append, htake, List.length_map, Vector.length_toList, ← hget]
    congr 1
    omega

theorem scaleRow_eq (G : Grid m n) (i : Fin m) (q : Scalar) :
    ((ofGrid G).scaleRow i q : Checked ε Buffer) = .ok (ofGrid ((RowOp.scale i q).apply G)) := by
  have hrow : (slice G.entries (i.val * n) ((i.val + 1) * n) : Checked ε (List Scalar)) = _ :=
    slice_entries G i
  show (do let row ← slice G.entries (i.val * n) ((i.val + 1) * n); _) = _
  rw [hrow]
  exact congrArg (fun cells => Except.ok (Buffer.mk m n cells)) (entries_scale G i q)

theorem perform_eq (G : Grid m n) (op : RowOp m) :
    ((ofGrid G).perform op : Checked ε Buffer) = .ok (ofGrid (op.apply G)) := by
  cases op with
  | swap i j => exact swapRows_eq G i j
  | scale i q => exact scaleRow_eq G i q
  | replace t s q => exact replaceRow_eq G t s q

/-! One column. -/

theorem pivotRow?_eq (G : Grid m n) (c : Fin n) (is : List (Fin m)) :
    ((ofGrid G).pivotRow? c (is.map Fin.val) : Checked ε (Option Nat)) =
      .ok ((is.find? fun i => decide (G.get i c ≠ 0)).map Fin.val) := by
  induction is with
  | nil => rfl
  | cons i is ih =>
    rw [List.map_cons, pivotRow?, get_ofGrid, ok_bind]
    by_cases hzero : G.get i c = 0
    · rw [if_pos hzero, ih, List.find?_cons_of_neg (by simpa using hzero)]
    · rw [if_neg hzero, List.find?_cons_of_pos (by simpa using hzero)]
      rfl

theorem pivotRow?_interval (G : Grid m n) (r : Fin m) (c : Fin n) :
    ((ofGrid G).pivotRow? c (interval r m) : Checked ε (Option Nat)) =
      .ok ((Elimination.pivotRow? G r c).map Fin.val) := by
  rw [interval_eq_filter (Nat.le_of_lt r.isLt), pivotRow?_eq, List.find?_filter]
  simp only [Elimination.pivotRow?, Bool.decide_and, Bool.decide_eq_true]
  rfl

/-- A buffer that holds the entries of the grid that is worked on. -/
def ofWork (w : Work m n) : Buffer := ofGrid w.grid

theorem get_ofWork (w : Work m n) (i : Fin m) (j : Fin n) :
    ((ofWork w).get i j : Checked ε Scalar) = .ok (w.grid.get i j) := get_ofGrid w.grid i j

theorem clear_eq (pivot : Scalar) (r : Fin m) (c : Fin n) (w : Work m n)
    (targets : List (Fin m)) :
    (ofWork w).clear pivot r c (targets.map Fin.val) =
      attempt ((w.clear pivot r c targets).map ofWork) := by
  induction targets generalizing w with
  | nil => rfl
  | cons t rest ih =>
    rw [List.map_cons, clear, get_ofWork, ok_bind, Work.clear]
    split
    · exact ih w
    · cases Scalar.divide (w.grid.get t c) pivot with
      | ok q =>
        show ((ofGrid w.grid).replaceRow t r (-q) >>= _) = _
        rw [replaceRow_eq]
        exact ih (w.record (.replace t r (-q)))
      | error e => rfl

theorem clearColumn_eq (w : Work m n) (r : Fin m) (c : Fin n) (targets : List (Fin m)) :
    (ofWork w).clearColumn r c (targets.map Fin.val) =
      attempt ((w.clearColumn r c targets).map ofWork) := by
  rw [clearColumn, get_ofWork, ok_bind, clear_eq]
  rfl

theorem place_eq (w : Work m n) (r found : Fin m) :
    ((ofWork w).place r found : Checked ε Buffer) =
      .ok (ofWork (if found = r then w else w.record (.swap found r))) := by
  by_cases h : found = r
  · rw [place, if_pos (congrArg Fin.val h), if_pos h]
  · rw [place, if_neg fun hval => h (Fin.ext hval), if_neg h]
    exact swapRows_eq w.grid found r

theorem normalize_eq (mode : Mode) (pivot : Scalar) (r : Fin m) (w : Work m n) :
    (ofWork w).normalize mode pivot r =
      attempt ((Elimination.normalize mode pivot r w).map ofWork) := by
  unfold normalize Elimination.normalize
  split
  · cases Scalar.reciprocal pivot with
    | ok q => exact scaleRow_eq w.grid r q
    | error e => rfl
  · rfl

theorem rowsBelow_eq (r : Fin m) : interval (r + 1) m = (Elimination.rowsBelow r).map Fin.val :=
  interval_eq_filter r.isLt

theorem rowsAbove_eq (r : Fin m) : List.range r = (Elimination.rowsAbove r).map Fin.val :=
  range_eq_filter (Nat.le_of_lt r.isLt)

/-! The pass up. -/

theorem ascend_eq (w : Work m n) (places : List (Fin m × Fin n)) :
    (ofWork w).ascend (places.map fun p => (p.2.val, p.1.val)) =
      attempt ((Elimination.ascend w places).map ofWork) := by
  induction places with
  | nil => rfl
  | cons p later ih =>
    obtain ⟨r, c⟩ := p
    rw [List.map_cons, ascend, ih, Elimination.ascend]
    refine attempt_bind fun cleared => ?_
    rw [rowsAbove_eq, clearColumn_eq]

theorem zipIdx_pivots {E : Elimination m n} (h : E.pivots.length ≤ m) :
    (E.pivots.map Fin.val).zipIdx = E.places.map fun p => (p.2.val, p.1.val) := by
  apply List.ext_getElem
  · simp [Elimination.places, h]
  · intro i _ _
    simp [Elimination.places]

end Buffer

/-! The pass down. -/

namespace Progress

/-- How far elimination of what is stored has come. -/
def ofElimination (E : Elimination m n) : Progress :=
  ⟨.ofWork E.toWork, E.pivots.map Fin.val, E.pivotProduct, E.rowSwaps⟩

theorem pivotAt_eq (mode : Mode) (E : Elimination m n) (r found : Fin m) (c : Fin n) :
    (ofElimination E).pivotAt mode r found c =
      attempt ((E.pivotAt mode r found c).map ofElimination) := by
  show ((Buffer.ofWork E.toWork).place r found >>= _) = _
  rw [Buffer.place_eq, ok_bind, Buffer.get_ofWork, ok_bind, Buffer.normalize_eq,
    Elimination.pivotAt]
  refine attempt_bind fun scaled => ?_
  show ((Buffer.ofWork scaled).clearColumn r c (interval (r + 1) m) >>= _) = _
  rw [Buffer.rowsBelow_eq, Buffer.clearColumn_eq]
  cases scaled.clearColumn r c (Elimination.rowsBelow r) with
  | ok cleared => simp [Except.map, ofElimination, Fin.ext_iff]
  | error e => rfl

theorem pivots_of_pivotAt {mode : Mode} {E next : Elimination m n} {r found : Fin m} {c : Fin n}
    (h : E.pivotAt mode r found c = .ok next) : next.pivots = E.pivots ++ [c] := by
  simp only [Elimination.pivotAt, bind_eq_ok_iff, map_eq_ok_iff] at h
  obtain ⟨_, _, _, _, rfl⟩ := h
  rfl

theorem descend_eq (mode : Mode) {E : Elimination m n} (h : E.pivots.length ≤ m)
    (cs : List (Fin n)) :
    (ofElimination E).descend mode (cs.map Fin.val) =
      attempt ((E.descend mode cs).map ofElimination) := by
  induction cs generalizing E with
  | nil => rfl
  | cons c rest ih =>
    have hlength : (ofElimination E).pivots.length = E.pivots.length := List.length_map _
    rw [List.map_cons, descend, Elimination.descend, hlength]
    -- The stored numbers of rows and pivots are compared where the row was shown to exist.
    by_cases hm : E.pivots.length < m
    · have hnext : ¬E.pivots.length = (ofElimination E).buffer.rows := Nat.ne_of_lt hm
      have hfound : ((ofElimination E).buffer.pivotRow? c (interval E.pivots.length m) :
          Checked AlgebraError (Option Nat)) = _ :=
        Buffer.pivotRow?_interval E.grid ⟨E.pivots.length, hm⟩ c
      rw [if_neg hnext, dif_pos hm]
      show ((ofElimination E).buffer.pivotRow? c (interval E.pivots.length m) >>= _) = _
      rw [hfound, ok_bind]
      cases Elimination.pivotRow? E.grid ⟨E.pivots.length, hm⟩ c with
      | none => exact ih h
      | some found =>
        show ((ofElimination E).pivotAt mode (⟨E.pivots.length, hm⟩ : Fin m) found c >>= _) = _
        rw [pivotAt_eq]
        cases hnext : E.pivotAt mode ⟨E.pivots.length, hm⟩ found c with
        | ok next =>
          have hlength : next.pivots.length ≤ m := by
            rw [pivots_of_pivotAt hnext]
            simpa using hm
          simp only [hnext]
          exact ih hlength
        | error e =>
          simp only [hnext]
          rfl
    · have hfull : E.pivots.length = (ofElimination E).buffer.rows :=
        Nat.le_antisymm h (Nat.not_lt.mp hm)
      rw [if_pos hfull, dif_neg hm]
      rfl

end Progress

/-! Both passes. -/

/-- What elimination of what is stored comes to. -/
def Reduction.ofElimination (A : Mat) (E : Elimination A.rows A.cols) : Reduction :=
  ⟨.ofMat (A.withGrid E.grid), E.pivots.map Fin.val, E.pivotProduct, E.rowSwaps⟩

theorem Table.eliminate_eq (A : Mat) (mode : Mode) :
    (ofMat A).eliminate mode = attempt ((A.eliminate mode).map (Reduction.ofElimination A)) := by
  obtain ⟨down, hdown⟩ :=
    Elimination.exists_descends mode (Elimination.start A.grid) (List.finRange A.cols)
  have hlength : down.pivots.length ≤ A.rows := hdown.swept_start.length_le
  have hstored : Progress.descend mode ⟨.ofTable (ofMat A), [], 1, 0⟩ (List.range A.cols) =
      .ok (Progress.ofElimination down) := by
    have hdescend := Progress.descend_eq mode (E := Elimination.start A.grid) (Nat.zero_le _)
      (List.finRange A.cols)
    rw [hdown.descend_eq, List.map_coe_finRange_eq_range] at hdescend
    exact hdescend
  have hfinish : ∀ w : Work A.rows A.cols, (ofMat A).withValues (Buffer.ofWork w).cells =
      (.ok (ofMat (A.withGrid w.grid)) : Checked AlgebraError Table) :=
    fun w => withValues_ofMat A w.grid
  rw [eliminate, cols_ofMat, hstored, ok_bind, Mat.eliminate, Grid.eliminate, hdown.descend_eq]
  cases mode with
  | echelon =>
    show ((ofMat A).withValues (Buffer.ofWork down.toWork).cells >>= _) = _
    rw [hfinish]
    rfl
  | reduced =>
    show ((Buffer.ofWork down.toWork).ascend (down.pivots.map Fin.val).zipIdx >>= _) = _
    rw [Buffer.zipIdx_pivots hlength, Buffer.ascend_eq]
    cases hup : Elimination.ascend down.toWork down.places with
    | ok up =>
      rw [Except.map, attempt_ok, ok_bind, hfinish]
      show _ = attempt (((Elimination.ascend down.toWork down.places).map _).map _)
      rw [hup]
      rfl
    | error e =>
      show _ = attempt (((Elimination.ascend down.toWork down.places).map _).map _)
      rw [hup]
      rfl

end Storage

end ExactLinear
