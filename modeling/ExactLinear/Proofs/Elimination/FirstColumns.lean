import ExactLinear.Proofs.CanonicalForm
import ExactLinear.Proofs.Selection

/- Elimination of the first columns of a grid. A pass down over a grid begins as the
   pass down over its first columns does (`Descends.exists_restricts`). When it
   leaves them, the rows without a pivot hold nothing there, and only such rows are
   swapped, scaled or added to others from then on, so the first columns stay as they
   are (`Descends.firstColumns_eq`). In reduced mode what is left of them is reduced
   and has the null vectors of the first columns, so it is their reduced form. -/
namespace ExactLinear

variable {m n k : Nat}

/-! The first columns. -/

namespace Grid

/-- The first `k` columns. -/
def firstColumns (A : Grid m n) (hk : k ≤ n) : Grid m k := ofFn fun i j => A.get i (j.castLE hk)

@[simp] theorem get_firstColumns (A : Grid m n) (hk : k ≤ n) (i : Fin m) (j : Fin k) :
    (A.firstColumns hk).get i j = A.get i (j.castLE hk) := by
  simp [firstColumns]

/-- A reduced form is reduced as far as it goes. -/
theorem IsReduced.firstColumns {R : Grid m n} {hk : k ≤ n} {p : List (Fin k)}
    {later : List (Fin n)} (h : R.IsReduced (p.map (Fin.castLE hk) ++ later))
    (hlater : ∀ c ∈ later, k ≤ c.val) : (R.firstColumns hk).IsReduced p := by
  have hget : ∀ {i : Nat} {c : Fin k}, p[i]? = some c →
      (p.map (Fin.castLE hk) ++ later)[i]? = some (c.castLE hk) := by
    intro i c hc
    obtain ⟨hi, -⟩ := List.getElem?_eq_some_iff.mp hc
    rw [List.getElem?_append_left (by simpa using hi), List.getElem?_map, hc, Option.map_some]
  constructor
  case toIsEchelon =>
    constructor
    case increasing =>
      have hincreasing := List.pairwise_map.mp (List.pairwise_append.mp h.increasing).1
      exact hincreasing
    case length_le =>
      have hlength := h.length_le
      rw [List.length_append, List.length_map] at hlength
      omega
    case zero_before =>
      intro i c hc j hj
      rw [get_firstColumns]
      exact h.zero_before i _ (hget hc) _ hj
    case pivot_ne_zero =>
      intro i c hc
      rw [get_firstColumns]
      exact h.pivot_ne_zero i _ (hget hc)
    case zero_rows =>
      intro i hi j
      rw [get_firstColumns]
      cases hd : (p.map (Fin.castLE hk) ++ later)[i.val]? with
      | none => exact h.zero_rows i (List.getElem?_eq_none_iff.mp hd) _
      | some d =>
        -- The row may have a pivot, but only behind the first columns.
        apply h.zero_before i d hd
        rw [List.getElem?_append_right (by simpa using hi)] at hd
        exact Nat.lt_of_lt_of_le j.isLt (hlater d (List.mem_of_getElem? hd))
  case pivot_one =>
    intro i c hc
    rw [get_firstColumns]
    exact h.pivot_one i _ (hget hc)
  case pivot_alone =>
    intro i c hc x hx
    rw [get_firstColumns]
    exact h.pivot_alone i _ (hget hc) x hx

end Grid

namespace RowOp

/-- A row operation does to some columns what it does to them among all. -/
theorem firstColumns_apply (op : RowOp m) (A : Grid m n) (hk : k ≤ n) :
    (op.apply A).firstColumns hk = op.apply (A.firstColumns hk) := by
  apply Grid.ext_get
  intro x y
  cases op with
  | swap i j => simp only [get_apply_swap, Grid.get_firstColumns]
  | scale i q => simp only [get_apply_scale, Grid.get_firstColumns]
  | replace t s q => simp only [get_apply_replace, Grid.get_firstColumns]

theorem firstColumns_applyAll (ops : List (RowOp m)) (A : Grid m n) (hk : k ≤ n) :
    (applyAll ops A).firstColumns hk = applyAll ops (A.firstColumns hk) := by
  induction ops generalizing A with
  | nil => rfl
  | cons op ops ih => rw [applyAll_cons, ih, firstColumns_apply, applyAll_cons]

end RowOp

namespace Elimination

/-! The pass down as far as the first columns go. -/

/-- That the second state is what the first one is in the first columns, where all pivots of the
first one are. -/
structure Restricts (hk : k ≤ n) (E : Elimination m n) (F : Elimination m k) : Prop where
  grid : F.grid = E.grid.firstColumns hk
  pivots : E.pivots = F.pivots.map (Fin.castLE hk)

namespace Restricts
variable {hk : k ≤ n} {E : Elimination m n} {F : Elimination m k}

theorem start (A : Grid m n) (hk : k ≤ n) :
    Restricts hk (Elimination.start A) (Elimination.start (A.firstColumns hk)) :=
  ⟨rfl, rfl⟩

theorem length_eq (h : Restricts hk E F) : E.pivots.length = F.pivots.length := by
  rw [h.pivots, List.length_map]

/-- The next row to get a pivot is the same. -/
theorem nextRow_eq (h : Restricts hk E F) (hE : E.pivots.length < m) (hF : F.pivots.length < m) :
    (⟨E.pivots.length, hE⟩ : Fin m) = ⟨F.pivots.length, hF⟩ :=
  Fin.ext h.length_eq

theorem get_eq (h : Restricts hk E F) (i : Fin m) (j : Fin k) :
    F.grid.get i j = E.grid.get i (j.castLE hk) := by
  rw [h.grid, Grid.get_firstColumns]

theorem pivotRow?_eq (h : Restricts hk E F) (r : Fin m) (c : Fin k) :
    pivotRow? F.grid r c = pivotRow? E.grid r (c.castLE hk) := by
  simp only [pivotRow?, h.get_eq]

theorem pivoted (h : Restricts hk E F) (mode : Mode) (r : Fin m) {found : Fin m} {c : Fin k}
    (hpivot : F.grid.get found c ≠ 0) :
    Restricts hk (E.pivoted mode r found (c.castLE hk)) (F.pivoted mode r found c) := by
  have hpivot' : E.grid.get found (c.castLE hk) ≠ 0 := by rwa [← h.get_eq]
  constructor
  case grid =>
    apply Grid.ext_get
    intro i j
    rw [Grid.get_firstColumns, get_pivoted mode F c hpivot, get_pivoted mode E _ hpivot']
    simp only [h.get_eq]
  case pivots =>
    show E.pivots ++ [c.castLE hk] = (F.pivots ++ [c]).map (Fin.castLE hk)
    rw [h.pivots, List.map_append]
    rfl

end Restricts

theorem Descends.exists_restricts {mode : Mode} {hk : k ≤ n} {F F' : Elimination m k}
    {cs : List (Fin k)} (hrun : Descends mode F cs F') {E : Elimination m n}
    (h : Restricts hk E F) :
    ∃ E', Descends mode E (cs.map (Fin.castLE hk)) E' ∧ Restricts hk E' F' := by
  induction hrun generalizing E with
  | done F => exact ⟨E, .done E, h⟩
  | full hm => exact ⟨E, .full (h.length_eq ▸ hm), h⟩
  | @free F _ c _ hm hfree _ ih =>
    obtain ⟨E', hrun', h'⟩ := ih h
    have hm' : E.pivots.length < m := h.length_eq ▸ hm
    refine ⟨E', .free hm' ?_ hrun', h'⟩
    rw [h.nextRow_eq hm' hm, ← h.pivotRow?_eq]
    exact hfree
  | @pivot F _ c _ found hm hfound _ ih =>
    have hm' : E.pivots.length < m := h.length_eq ▸ hm
    have hrow := h.nextRow_eq hm' hm
    obtain ⟨E', hrun', h'⟩ := ih (h.pivoted mode _ (pivotRow?_eq_some hfound).2)
    refine ⟨E', .pivot hm' ?_ (hrow ▸ hrun'), h'⟩
    rw [hrow, ← h.pivotRow?_eq]
    exact hfound

/-! The pass down behind the first columns. -/

/-- A column in which the rows without a pivot hold nothing stays as it is. -/
theorem get_pivoted_of_zero (mode : Mode) (E : Elimination m n) {r found : Fin m} {c : Fin n}
    (hpivot : E.grid.get found c ≠ 0) (hle : r ≤ found) {j : Fin n}
    (hzero : ∀ i, r ≤ i → E.grid.get i j = 0) (i : Fin m) :
    (E.pivoted mode r found c).grid.get i j = E.grid.get i j := by
  rcases lt_trichotomy i r with hlt | rfl | hgt
  · exact get_pivoted_of_lt mode E c hpivot hle hlt j
  · rw [get_pivoted_self mode E c hpivot, hzero found hle, zero_mul, hzero i le_rfl]
  · rw [get_pivoted_of_gt mode E c hpivot hgt, hzero _ (le_swap hle hgt.le), hzero found hle,
      hzero i hgt.le, mul_zero, sub_zero]

theorem Descends.firstColumns_eq {mode : Mode} {E E' : Elimination m n} {cs : List (Fin n)}
    (hrun : Descends mode E cs E') {hk : k ≤ n}
    (hzero : ∀ i : Fin m, E.pivots.length ≤ i.val →
      ∀ j, (E.grid.firstColumns hk).get i j = 0) :
    E'.grid.firstColumns hk = E.grid.firstColumns hk := by
  induction hrun with
  | done E => rfl
  | full hm => rfl
  | free hm hfree _ ih => exact ih hzero
  | @pivot E E' c _ found hm hfound _ ih =>
    obtain ⟨hle, hpivot⟩ := pivotRow?_eq_some hfound
    have hsame : (E.pivoted mode ⟨E.pivots.length, hm⟩ found c).grid.firstColumns hk =
        E.grid.firstColumns hk := by
      apply Grid.ext_get
      intro i j
      simp only [Grid.get_firstColumns] at hzero ⊢
      exact get_pivoted_of_zero mode E hpivot hle (fun i hi => hzero i hi j) i
    rw [ih _, hsame]
    intro i hi
    have hlength : E.pivots.length + 1 ≤ i.val := by simpa [Elimination.pivoted] using hi
    rw [hsame]
    exact hzero i (Nat.le_of_succ_le hlength)

theorem Descends.exists_pivots {mode : Mode} {E E' : Elimination m n} {cs : List (Fin n)}
    (hrun : Descends mode E cs E') :
    ∃ later, E'.pivots = E.pivots ++ later ∧ ∀ c ∈ later, c ∈ cs := by
  induction hrun with
  | done E => exact ⟨[], (List.append_nil _).symm, fun _ hc => absurd hc List.not_mem_nil⟩
  | full hm => exact ⟨[], (List.append_nil _).symm, fun _ hc => absurd hc List.not_mem_nil⟩
  | free hm hfree _ ih =>
    obtain ⟨later, hpivots, hlater⟩ := ih
    exact ⟨later, hpivots, fun c hc => List.mem_cons_of_mem _ (hlater c hc)⟩
  | @pivot E _ c _ found hm hfound _ ih =>
    obtain ⟨later, hpivots, hlater⟩ := ih
    refine ⟨c :: later, ?_, ?_⟩
    · show _ = E.pivots ++ ([c] ++ later)
      rw [hpivots, ← List.append_assoc]
      rfl
    · intro d hd
      rcases List.mem_cons.mp hd with rfl | hd
      · exact List.mem_cons_self
      · exact List.mem_cons_of_mem c (hlater d hd)

/-! All columns. -/

theorem Descends.eq_of_full {mode : Mode} {E E' : Elimination m n} {cs : List (Fin n)}
    (hrun : Descends mode E cs E') (hm : m ≤ E.pivots.length) : E' = E := by
  cases hrun with
  | done => rfl
  | full => rfl
  | free h => exact absurd hm (Nat.not_le.mpr h)
  | pivot h => exact absurd hm (Nat.not_le.mpr h)

theorem Descends.append {mode : Mode} {E E' E'' : Elimination m n} {cs ds : List (Fin n)}
    (hrun : Descends mode E cs E') (hlater : Descends mode E' ds E'') :
    Descends mode E (cs ++ ds) E'' := by
  induction hrun with
  | done E => exact hlater
  | full hm =>
    rw [hlater.eq_of_full hm]
    exact .full hm
  | free hm hfree _ ih => exact .free hm hfree (ih hlater)
  | pivot hm hfound _ ih => exact .pivot hm hfound (ih hlater)

theorem exists_finRange_eq (hk : k ≤ n) :
    ∃ later, List.finRange n = (List.finRange k).map (Fin.castLE hk) ++ later ∧
      ∀ c ∈ later, k ≤ c.val := by
  obtain ⟨d, rfl⟩ := Nat.exists_eq_add_of_le hk
  refine ⟨(List.finRange d).map (Fin.natAdd k), ?_, ?_⟩
  · rw [← List.ofFn_id, List.ofFn_add, List.ofFn_eq_map, List.ofFn_eq_map]
    rfl
  · intro c hc
    obtain ⟨j, _, rfl⟩ := List.mem_map.mp hc
    exact Nat.le_add_right k j.val

/-- The pass down over all columns ends, in the first columns, where the pass down over them
ends. -/
theorem exists_descends_firstColumns (A : Grid m n) (mode : Mode) (hk : k ≤ n) :
    ∃ E F later, Descends mode (start A) (List.finRange n) E ∧
      Descends mode (start (A.firstColumns hk)) (List.finRange k) F ∧
      F.grid = E.grid.firstColumns hk ∧
      E.pivots = F.pivots.map (Fin.castLE hk) ++ later ∧ ∀ c ∈ later, k ≤ c.val := by
  obtain ⟨cs, hfinRange, hcs⟩ := exists_finRange_eq hk
  obtain ⟨F, narrow⟩ := exists_descends mode (start (A.firstColumns hk)) (List.finRange k)
  obtain ⟨D, front, hD⟩ := narrow.exists_restricts (.start A hk)
  obtain ⟨E, back⟩ := exists_descends mode D cs
  obtain ⟨later, hpivots, hlater⟩ := back.exists_pivots
  have hzero : ∀ i : Fin m, D.pivots.length ≤ i.val →
      ∀ j, (D.grid.firstColumns hk).get i j = 0 := by
    rw [hD.length_eq, ← hD.grid]
    exact fun i hi j => narrow.swept_start.isEchelon.zero_rows i hi j
  refine ⟨E, F, later, ?_, narrow, ?_, ?_, ?_⟩
  · rw [hfinRange]
    exact front.append back
  · rw [back.firstColumns_eq hzero, hD.grid]
  · rw [hpivots, hD.pivots]
  · exact fun c hc => hcs c (hlater c hc)

/-! Both passes. -/

theorem Eliminates.sameNull_firstColumns {A : Grid m n} {mode : Mode} {E : Elimination m n}
    (h : Eliminates A mode E) (hk : k ≤ n) :
    Grid.SameNull (A.firstColumns hk) (E.grid.firstColumns hk) := by
  rw [← h.replays.replay, RowOp.firstColumns_applyAll]
  exact RowOp.sameNull_applyAll h.replays.invertible _

theorem exists_eliminates_firstColumns (A : Grid m n) (mode : Mode) (hk : k ≤ n) :
    ∃ E F later, Eliminates A mode E ∧ Eliminates (A.firstColumns hk) mode F ∧
      F.grid = E.grid.firstColumns hk ∧
      E.pivots = F.pivots.map (Fin.castLE hk) ++ later ∧ ∀ c ∈ later, k ≤ c.val := by
  obtain ⟨D, N, later, hD, hN, hgrid, hpivots, hlater⟩ := exists_descends_firstColumns A mode hk
  cases mode with
  | echelon => exact ⟨D, N, later, .echelon hD, .echelon hN, hgrid, hpivots, hlater⟩
  | reduced =>
    obtain ⟨w, hw, -⟩ := exists_raised hD
    obtain ⟨v, hv, -⟩ := exists_raised hN
    have hE := Eliminates.reduced hD hw
    have hF := Eliminates.reduced hN hv
    have hreduced : (w.grid.firstColumns hk).IsReduced N.pivots := by
      have h := hE.isReduced
      rw [hpivots] at h
      exact h.firstColumns hlater
    have hfirst := (hF.grid_eq_of_sameNull hreduced (hE.sameNull_firstColumns hk)).1
    exact ⟨_, _, later, hE, hF, hfirst, hpivots, hlater⟩

end Elimination

/-! Matrices. -/

namespace Mat

/-- The first `k` columns. -/
def firstColumns (A : Mat) (k : Nat) (hpos : 0 < k) (hk : k ≤ A.cols) : Mat :=
  ⟨A.rows, k, A.rows_pos, hpos, A.grid.firstColumns hk⟩

theorem columnRange_zero (A : Mat) (hpos : 0 < k) (hk : k ≤ A.cols) (hlimit : k ≤ Limit.indices) :
    A.columnRange 0 k = .ok (A.firstColumns k hpos hk) := by
  rw [A.columnRange_eq hk, if_neg (by omega), Nat.sub_zero,
    A.columnsAt_range' hpos (by omega)]
  congr 2
  apply Grid.ext_get
  intro i j
  rw [Grid.get_ofFn, Grid.get_firstColumns]
  congr 1
  exact Fin.ext (Nat.zero_add j)

/-- Elimination of the first columns of a matrix leaves the first columns of what elimination of
the whole matrix leaves, and its pivot columns are those of the whole matrix that are among them.
As long as the numbers of these columns fit in one list, they are the columns of the range from
zero up to `k`. -/
theorem eliminate_firstColumns (A : Mat) (mode : Mode) (k : Nat) (hpos : 1 ≤ k)
    (hk : k ≤ A.cols) :
    ∃ E F, A.eliminate mode = .ok E ∧ (A.firstColumns k hpos hk).eliminate mode = .ok F ∧
      (A.firstColumns k hpos hk).withGrid F.grid = (A.withGrid E.grid).firstColumns k hpos hk ∧
      F.pivots.map Fin.val = (E.pivots.map Fin.val).filter (· < k) ∧
      (k ≤ Limit.indices →
        A.columnRange 0 k = .ok (A.firstColumns k hpos hk) ∧
        (A.withGrid E.grid).columnRange 0 k =
          .ok ((A.firstColumns k hpos hk).withGrid F.grid)) := by
  obtain ⟨E, F, later, hE, hF, hgrid, hpivots, hlater⟩ :=
    Elimination.exists_eliminates_firstColumns A.grid mode hk
  have hmat : (A.firstColumns k hpos hk).withGrid F.grid =
      (A.withGrid E.grid).firstColumns k hpos hk := by
    rw [hgrid]
    rfl
  refine ⟨E, F, hE.eliminate_eq, hF.eliminate_eq, hmat, ?_, ?_⟩
  · have hback : ∀ c ∈ later.map Fin.val, ¬c < k := by
      intro c hc
      obtain ⟨j, hj, rfl⟩ := List.mem_map.mp hc
      exact Nat.not_lt.mpr (hlater j hj)
    rw [hpivots, List.map_append, List.map_map, List.filter_append]
    show F.pivots.map Fin.val = (F.pivots.map Fin.val).filter (· < k) ++ _
    rw [List.filter_eq_self.mpr (by simp), List.filter_eq_nil_iff.mpr (by simpa using hback),
      List.append_nil]
  · intro hlimit
    rw [hmat]
    exact ⟨columnRange_zero A hpos hk hlimit, columnRange_zero (A.withGrid E.grid) hpos hk hlimit⟩

/-- A matrix whose last column is no multiple of the one before it. -/
def stairs : Mat :=
  ⟨2, 3, Nat.two_pos, Nat.zero_lt_succ 2, Grid.ofFn fun i j => (j.val * (i.val + j.val) : Nat)⟩

/-- The last column has a pivot, of which the first two know nothing. -/
theorem eliminate_firstColumns_stairs :
    1 ≤ 2 ∧ 2 ≤ stairs.cols ∧ ∃ (E : Elimination 2 3) (F : Elimination 2 2),
      stairs.eliminate .reduced = .ok E ∧
      (stairs.firstColumns 2 (by decide) (by decide)).eliminate .reduced = .ok F ∧
      E.pivots.map Fin.val = [1, 2] ∧ F.pivots.map Fin.val = [1] := by
  obtain ⟨E, F, hE, hF, -, hpivots, -⟩ :=
    eliminate_firstColumns stairs .reduced 2 (by decide) (by decide)
  have hrun : (stairs.eliminate .reduced).map (fun E => E.pivots.map Fin.val) = .ok [1, 2] := by
    decide +kernel
  rw [hE] at hrun
  have hwide : E.pivots.map Fin.val = [1, 2] := Except.ok.inj hrun
  refine ⟨by decide, by decide, E, F, hE, hF, hwide, hpivots.trans ?_⟩
  rw [hwide]
  rfl

end Mat

end ExactLinear
