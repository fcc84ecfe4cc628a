import ExactLinear.Proofs.CanonicalForm

/- Elimination of a grid that elimination has been through already. A pass down
   over such a grid finds each pivot in its own row, where nothing has to be swapped,
   scaled or cleared, and no pivot in any other column. What holds at every point of
   it (`Repeats`): nothing has been done, and the pivots of the grid are reported
   already or in columns that are still ahead. A pass up has nothing to clear. So the
   second elimination notes no operation and ends with the same grid and the same
   pivots (`Eliminates.repeated`). -/
namespace ExactLinear

variable {m n : Nat}

/-- The form that elimination in a mode ends in. -/
structure Grid.IsFinal (G : Grid m n) (mode : Mode) (p : List (Fin n)) : Prop
    extends G.IsEchelon p where
  isReduced : mode = .reduced → G.IsReduced p

theorem Elimination.Eliminates.isFinal {A : Grid m n} {mode : Mode} {E : Elimination m n}
    (h : Eliminates A mode E) : E.grid.IsFinal mode E.pivots := by
  refine ⟨h.isEchelon, ?_⟩
  intro hmode
  subst hmode
  exact h.isReduced

theorem Work.clearing_eq_nil {A : Grid m n} {r : Fin m} {c : Fin n} {targets : List (Fin m)}
    (h : ∀ t ∈ targets, A.get t c = 0) : clearing A r c targets = [] := by
  apply List.eq_nil_iff_forall_not_mem.mpr
  intro op hop
  obtain ⟨t, ht, hne, _⟩ := mem_clearing.mp hop
  exact hne (h t ht)

namespace Elimination

/-- Of increasing columns that are all ahead, the next column can only be the first. -/
theorem exists_eq_cons {c : Fin n} {ahead cs : List (Fin n)} (hahead : ahead.Pairwise (· < ·))
    (hcs : (c :: cs).Pairwise (· < ·)) (hsub : ∀ d ∈ ahead, d ∈ c :: cs) (hc : c ∈ ahead) :
    ∃ later, ahead = c :: later ∧ ∀ d ∈ later, d ∈ cs := by
  cases ahead with
  | nil => exact absurd hc List.not_mem_nil
  | cons d later =>
    have hlater : ∀ b ∈ later, d < b := fun b => List.rel_of_pairwise_cons hahead
    have hcd : c ≤ d := by
      rcases List.mem_cons.mp (hsub d List.mem_cons_self) with rfl | hd
      · exact le_rfl
      · exact (List.rel_of_pairwise_cons hcs hd).le
    have hdc : d ≤ c := by
      rcases List.mem_cons.mp hc with rfl | hc
      · exact le_rfl
      · exact (hlater c hc).le
    obtain rfl : c = d := le_antisymm hcd hdc
    refine ⟨later, rfl, ?_⟩
    intro b hb
    rcases List.mem_cons.mp (hsub b (List.mem_cons_of_mem c hb)) with rfl | hbcs
    · exact absurd (hlater b hb) (lt_irrefl b)
    · exact hbcs

/-! The pass down. -/

/-- A pass down over the grid `G` with the pivots `p`, at the point where the columns `cs` are
before it: nothing has been done, and the pivots that are not reported yet are ahead. -/
structure Repeats (G : Grid m n) (p cs : List (Fin n)) (E : Elimination m n) : Prop where
  toWork : E.toWork = ⟨G, []⟩
  rowSwaps : E.rowSwaps = 0
  pivots : ∃ ahead, E.pivots ++ ahead = p ∧ ∀ c ∈ ahead, c ∈ cs

/-- Nothing has to be done for the pivot of a row to be the pivot of that row. -/
theorem pivoting_eq_nil {G : Grid m n} {mode : Mode} {p : List (Fin n)} (h : G.IsFinal mode p)
    {r : Fin m} {c : Fin n} (hc : p[r.val]? = some c) : pivoting mode G r r c = [] := by
  have hplacing : placing mode G r r c = [] := by
    have hscaling : ¬(mode = .reduced ∧ G.get r c ≠ 1) := by
      intro hscale
      exact hscale.2 ((h.isReduced hscale.1).pivot_one r c hc)
    rw [placing, swapping, if_pos rfl, scaling, if_neg hscaling]
    rfl
  rw [pivoting, hplacing, RowOp.applyAll_nil, List.nil_append]
  apply Work.clearing_eq_nil
  intro t ht
  exact h.zero_below hc (mem_rowsBelow.mp ht)

namespace Repeats
variable {G : Grid m n} {p cs : List (Fin n)} {c : Fin n} {mode : Mode} {E : Elimination m n}

theorem start (G : Grid m n) (p : List (Fin n)) :
    Repeats G p (List.finRange n) (Elimination.start G) :=
  ⟨rfl, rfl, p, rfl, fun c _ => List.mem_finRange c⟩

theorem grid_eq (h : Repeats G p cs E) : E.grid = G := congrArg Work.grid h.toWork

theorem full (h : Repeats G p cs E) (hG : G.IsEchelon p) (hm : m ≤ E.pivots.length) :
    Repeats G p [] E := by
  obtain ⟨ahead, rfl, -⟩ := h.pivots
  have hlength := hG.length_le
  rw [List.length_append] at hlength
  have hnil : ahead = [] := List.length_eq_zero_iff.mp (by omega)
  subst hnil
  exact ⟨h.toWork, h.rowSwaps, [], rfl, fun _ hc => absurd hc List.not_mem_nil⟩

theorem free (h : Repeats G p (c :: cs) E) (hG : G.IsEchelon p)
    (hcs : (c :: cs).Pairwise (· < ·)) (hm : E.pivots.length < m)
    (hfree : pivotRow? E.grid ⟨E.pivots.length, hm⟩ c = none) : Repeats G p cs E := by
  rw [h.grid_eq, pivotRow?_eq_none] at hfree
  obtain ⟨ahead, rfl, hahead⟩ := h.pivots
  refine ⟨h.toWork, h.rowSwaps, ahead, rfl, ?_⟩
  intro d hd
  rcases List.mem_cons.mp (hahead d hd) with rfl | hdcs
  · -- Were this column a pivot, it would be the pivot of the next row.
    have hincreasing := (List.pairwise_append.mp hG.increasing).2.1
    obtain ⟨later, rfl, _⟩ := exists_eq_cons hincreasing hcs hahead hd
    exact absurd (hfree _ le_rfl) (hG.pivot_ne_zero _ d (by simp))
  · exact hdcs

/-- A pivot is found in the row that it has, and everything stays as it is. -/
theorem pivot (h : Repeats G p (c :: cs) E) (hG : G.IsFinal mode p)
    (hcs : (c :: cs).Pairwise (· < ·)) (hm : E.pivots.length < m) {found : Fin m}
    (hfound : pivotRow? E.grid ⟨E.pivots.length, hm⟩ c = some found) :
    Repeats G p cs (E.pivoted mode ⟨E.pivots.length, hm⟩ found c) := by
  rw [h.grid_eq] at hfound
  obtain ⟨hle, hne⟩ := pivotRow?_eq_some hfound
  obtain ⟨ahead, hp, hahead⟩ := h.pivots
  have hincreasing : ahead.Pairwise (· < ·) :=
    (List.pairwise_append.mp (hp ▸ hG.increasing)).2.1
  -- The row that was found has a pivot, it is ahead, and it is not after this column.
  obtain ⟨d, hd⟩ : ∃ d, p[found.val]? = some d := by
    apply Option.ne_none_iff_exists'.mp
    intro hnone
    exact hne (hG.zero_rows found (List.getElem?_eq_none_iff.mp hnone) c)
  have hdc : d ≤ c := by
    apply le_of_not_gt
    intro hlt
    exact hne (hG.zero_before found d hd c hlt)
  have hmem : d ∈ ahead := by
    rw [← hp, List.getElem?_append_right hle] at hd
    exact List.mem_of_getElem? hd
  have hcd : c ≤ d := by
    rcases List.mem_cons.mp (hahead d hmem) with rfl | hdcs
    · exact le_rfl
    · exact (List.rel_of_pairwise_cons hcs hdcs).le
  obtain rfl : c = d := le_antisymm hcd hdc
  obtain ⟨later, rfl, hlater⟩ := exists_eq_cons hincreasing hcs hahead hmem
  have hr : p[E.pivots.length]? = some c := by simp [← hp]
  obtain rfl : found = ⟨E.pivots.length, hm⟩ := by
    apply le_antisymm _ hle
    apply le_of_not_gt
    intro hlt
    exact lt_irrefl c (Grid.lt_of_getElem?_lt hG.increasing hr hd hlt)
  constructor
  case toWork =>
    show E.toWork.recordAll (pivoting mode E.grid _ _ c) = _
    rw [h.grid_eq, pivoting_eq_nil hG hr, Work.recordAll_nil, h.toWork]
  case rowSwaps =>
    show E.rowSwaps + (if _ = _ then 0 else 1) = 0
    rw [h.rowSwaps, if_pos rfl]
  case pivots =>
    refine ⟨later, ?_, hlater⟩
    show E.pivots ++ [c] ++ later = p
    rw [← hp, List.append_assoc, List.singleton_append]

theorem pivots_eq (h : Repeats G p [] E) : E.pivots = p := by
  obtain ⟨ahead, rfl, hahead⟩ := h.pivots
  rw [List.eq_nil_iff_forall_not_mem.mpr fun c hc => List.not_mem_nil (hahead c hc),
    List.append_nil]

end Repeats

theorem Descends.repeats {G : Grid m n} {p cs : List (Fin n)} {mode : Mode}
    {E E' : Elimination m n} (hrun : Descends mode E cs E') (hG : G.IsFinal mode p)
    (hcs : cs.Pairwise (· < ·)) (h : Repeats G p cs E) : Repeats G p [] E' := by
  induction hrun with
  | done E => exact h
  | full hm => exact h.full hG.toIsEchelon hm
  | free hm hfree _ ih => exact ih hcs.of_cons (h.free hG.toIsEchelon hcs hm hfree)
  | pivot hm hfound _ ih => exact ih hcs.of_cons (h.pivot hG hcs hm hfound)

/-! The pass up. -/

theorem Ascends.eq_of_isReduced {w w' : Work m n} {places : List (Fin m × Fin n)}
    (hrun : Ascends w places w') {p : List (Fin n)} (hG : w.grid.IsReduced p)
    (hplaces : ∀ x ∈ places, p[x.1.val]? = some x.2) : w' = w := by
  induction hrun with
  | done => rfl
  | @clear w' r c later _ _ ih =>
    obtain ⟨hr, hlater⟩ := List.forall_mem_cons.mp hplaces
    obtain rfl := ih hlater
    rw [Work.clearing_eq_nil, Work.recordAll_nil]
    intro t ht
    exact hG.pivot_alone r c hr t (mem_rowsAbove.mp ht).ne

/-! Both passes. -/

/-- Elimination of the result of elimination in the same mode. -/
theorem Eliminates.repeated {A : Grid m n} {mode : Mode} {E F : Elimination m n}
    (hE : Eliminates A mode E) (hF : Eliminates E.grid mode F) :
    F.grid = E.grid ∧ F.log = [] ∧ F.pivots = E.pivots ∧ F.rowSwaps = 0 := by
  have hdown : ∀ {D : Elimination m n}, Descends mode (start E.grid) (List.finRange n) D →
      Repeats E.grid E.pivots [] D := fun down =>
    down.repeats hE.isFinal (List.pairwise_lt_finRange n) (.start E.grid E.pivots)
  cases hF with
  | echelon down =>
    have h := hdown down
    exact ⟨h.grid_eq, congrArg Work.log h.toWork, h.pivots_eq, h.rowSwaps⟩
  | @reduced D w down up =>
    have h := hdown down
    have hw : w = D.toWork := by
      apply up.eq_of_isReduced (p := D.pivots)
      · rw [h.grid_eq, h.pivots_eq]
        exact hE.isReduced
      · intro x hx
        exact mem_places.mp hx
    subst hw
    exact ⟨h.grid_eq, congrArg Work.log h.toWork, h.pivots_eq, h.rowSwaps⟩

end Elimination

namespace Mat

theorem echelon_eq {A : Mat} {E : Elimination A.rows A.cols}
    (h : Elimination.Eliminates A.grid .echelon E) : A.echelon = .ok (A.withGrid E.grid) := by
  rw [echelon, eliminate, h.eliminate_eq]
  rfl

/-- Elimination of a matrix that elimination in the same mode has left behind performs no
operation: the matrix and the pivot columns stay, the log is empty and no row is swapped. So the
echelon form of an echelon form and the reduced form of a reduced form are the forms themselves. -/
theorem eliminate_repeated (A : Mat) :
    (∀ mode, ∃ E F, A.eliminate mode = .ok E ∧ (A.withGrid E.grid).eliminate mode = .ok F ∧
      F.grid = E.grid ∧ F.pivots = E.pivots ∧ F.operations = [] ∧ F.rowSwaps = 0) ∧
    (∃ R, A.echelon = .ok R ∧ R.echelon = .ok R) ∧
    ∃ R, A.reduced = .ok R ∧ R.reduced = .ok R := by
  have htwice : ∀ mode, ∃ E F, Elimination.Eliminates A.grid mode E ∧
      Elimination.Eliminates E.grid mode F := by
    intro mode
    obtain ⟨E, hE⟩ := Elimination.exists_eliminates A.grid mode
    obtain ⟨F, hF⟩ := Elimination.exists_eliminates E.grid mode
    exact ⟨E, F, hE, hF⟩
  refine ⟨?_, ?_, ?_⟩
  · intro mode
    obtain ⟨E, F, hE, hF⟩ := htwice mode
    obtain ⟨hgrid, hlog, hpivots, hswaps⟩ := hE.repeated hF
    refine ⟨E, F, hE.eliminate_eq, hF.eliminate_eq, hgrid, hpivots, ?_, hswaps⟩
    show F.log.reverse = []
    rw [hlog, List.reverse_nil]
  · obtain ⟨E, F, hE, hF⟩ := htwice .echelon
    refine ⟨A.withGrid E.grid, echelon_eq hE, ?_⟩
    rw [echelon_eq (A := A.withGrid E.grid) hF, (hE.repeated hF).1]
    rfl
  · obtain ⟨E, F, hE, hF⟩ := htwice .reduced
    refine ⟨A.withGrid E.grid, reduced_eq hE, ?_⟩
    rw [reduced_eq (A := A.withGrid E.grid) hF, (hE.repeated hF).1]
    rfl

end Mat

end ExactLinear
