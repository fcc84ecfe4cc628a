import ExactLinear.Proofs.Elimination.Descent

/- The pass up as a relation, and the run of both passes. Clearing a column above
   its pivot changes no row before its own pivot and no pivot, and the columns
   cleared before stay clear, since the pivot row is zero there (`Raised.clear`).

   A run of elimination never fails (`exists_eliminates`). It ends in an echelon
   form with the pivot columns that it reports (`Eliminates.isEchelon`), and in
   reduced mode in the reduced form (`Eliminates.isReduced`). -/
namespace ExactLinear

namespace Grid
variable {m n : Nat} {G : Grid m n} {p : List (Fin n)} {r : Fin m} {c : Fin n}

/-! One column. -/

/-- The grid with column `c` cleared above row `r`. -/
def clearedAbove (G : Grid m n) (r : Fin m) (c : Fin n) : Grid m n :=
  RowOp.applyAll (Work.clearing G r c (Elimination.rowsAbove r)) G

theorem get_clearedAbove (G : Grid m n) (r : Fin m) (c : Fin n) (i : Fin m) (j : Fin n) :
    (G.clearedAbove r c).get i j =
      if i < r then G.get i j - G.get i c / G.get r c * G.get r j else G.get i j := by
  have habove : r ∉ Elimination.rowsAbove r := by simp
  rw [clearedAbove,
    Work.get_applyAll_clearing _ _ _ habove (Elimination.nodup_rowsAbove r)]
  simp only [Elimination.mem_rowsAbove]

/-- Up to its own pivot a row stays as it was. -/
theorem IsEchelon.get_clearedAbove_of_le (h : G.IsEchelon p) (hr : p[r.val]? = some c)
    {i : Fin m} {d : Fin n} (hd : p[i.val]? = some d) {j : Fin n} (hj : j ≤ d) :
    (G.clearedAbove r c).get i j = G.get i j := by
  rw [get_clearedAbove]
  split
  · next hi =>
    have hdc : d < c := lt_of_getElem?_lt h.increasing hd hr hi
    rw [h.zero_before r c hr j (lt_of_le_of_lt hj hdc), mul_zero, sub_zero]
  · rfl

theorem IsEchelon.clearedAbove (h : G.IsEchelon p) (hr : p[r.val]? = some c) :
    (G.clearedAbove r c).IsEchelon p where
  increasing := h.increasing
  length_le := h.length_le
  zero_before := by
    intro i d hd j hj
    rw [h.get_clearedAbove_of_le hr hd hj.le]
    exact h.zero_before i d hd j hj
  pivot_ne_zero := by
    intro i d hd
    rw [h.get_clearedAbove_of_le hr hd le_rfl]
    exact h.pivot_ne_zero i d hd
  zero_rows := by
    intro i hi j
    obtain ⟨hrp, _⟩ := List.getElem?_eq_some_iff.mp hr
    have hir : ¬ i < r := by
      rw [Fin.lt_def]
      omega
    rw [get_clearedAbove, if_neg hir]
    exact h.zero_rows i hi j

end Grid

namespace Elimination
variable {m n : Nat}

/-! The pass up. -/

/-- From the first work, the pass up over the listed pivots ends in the second. -/
inductive Ascends (w : Work m n) : List (Fin m × Fin n) → Work m n → Prop
  | done : Ascends w [] w
  | clear {w' : Work m n} {r : Fin m} {c : Fin n} {later : List (Fin m × Fin n)}
    (hlater : Ascends w later w') (hpivot : w'.grid.get r c ≠ 0) :
    Ascends w ((r, c) :: later) (w'.recordAll (Work.clearing w'.grid r c (rowsAbove r)))

theorem Ascends.ascend_eq {w w' : Work m n} {places : List (Fin m × Fin n)}
    (h : Ascends w places w') : ascend w places = .ok w' := by
  induction h with
  | done => rfl
  | clear _ hpivot ih =>
    rw [ascend, ih]
    exact Work.clearColumn_eq hpivot (by simp) (nodup_rowsAbove _)

/-- The grid of a pass up over pivots that are all one, with the listed pivots done. -/
structure Raised (p : List (Fin n)) (places : List (Fin m × Fin n)) (G : Grid m n) : Prop
    extends G.IsEchelon p where
  pivot_one : ∀ (i : Fin m) (c : Fin n), p[i.val]? = some c → G.get i c = 1
  zero_above : ∀ x ∈ places, ∀ i < x.1, G.get i x.2 = 0

theorem Raised.clear {p : List (Fin n)} {places : List (Fin m × Fin n)} {G : Grid m n}
    (h : Raised p places G) {r : Fin m} {c : Fin n} (hr : p[r.val]? = some c)
    (hbelow : ∀ x ∈ places, r < x.1) : Raised p ((r, c) :: places) (G.clearedAbove r c) where
  toIsEchelon := h.toIsEchelon.clearedAbove hr
  pivot_one := by
    intro i d hd
    rw [h.get_clearedAbove_of_le hr hd le_rfl]
    exact h.pivot_one i d hd
  zero_above := by
    intro x hx i hi
    rw [Grid.get_clearedAbove]
    rcases List.mem_cons.mp hx with rfl | hx
    · rw [if_pos hi, div_mul_cancel₀ _ (h.pivot_ne_zero r c hr), sub_self]
    · -- A column done before: the pivot row is zero in it, so nothing is added there.
      rw [h.zero_above x hx i hi, h.zero_above x hx r (hbelow x hx)]
      simp

theorem exists_ascends {p : List (Fin n)} {places : List (Fin m × Fin n)} (w : Work m n)
    (hplaces : ∀ x ∈ places, p[x.1.val]? = some x.2) (hdown : places.Pairwise (·.1 < ·.1))
    (h : Raised p [] w.grid) : ∃ w', Ascends w places w' ∧ Raised p places w'.grid := by
  induction places with
  | nil => exact ⟨w, .done, h⟩
  | cons x later ih =>
    obtain ⟨r, c⟩ := x
    obtain ⟨hr, hlater⟩ := List.forall_mem_cons.mp hplaces
    obtain ⟨w', hrun, hw'⟩ := ih hlater hdown.of_cons
    refine ⟨_, .clear hrun (hw'.pivot_ne_zero r c hr), ?_⟩
    rw [Work.grid_recordAll]
    exact hw'.clear hr fun x => List.rel_of_pairwise_cons hdown

/-! The places of the pivots. -/

theorem mem_places {E : Elimination m n} {i : Fin m} {c : Fin n} :
    (i, c) ∈ E.places ↔ E.pivots[i.val]? = some c := by
  rw [places, List.mem_iff_getElem?]
  refine ⟨?_, ?_⟩
  · intro h
    obtain ⟨l, hl⟩ := h
    obtain ⟨hi, hc⟩ := List.getElem?_zip_eq_some.mp hl
    obtain ⟨_, hli⟩ := List.getElem?_eq_some_iff.mp hi
    have hil : l = i.val := by simpa using congrArg Fin.val hli
    rw [← hil]
    exact hc
  · intro hc
    exact ⟨i.val, List.getElem?_zip_eq_some.mpr ⟨by simp, hc⟩⟩

theorem pairwise_places (E : Elimination m n) : E.places.Pairwise (·.1 < ·.1) := by
  apply List.pairwise_iff_getElem.mpr
  intro i j hi hj hij
  simpa [places] using hij

/-! Both passes. -/

/-- Elimination of the grid in the given mode ends in the given state. -/
inductive Eliminates (A : Grid m n) : Mode → Elimination m n → Prop
  | echelon {E : Elimination m n} (down : Descends .echelon (start A) (List.finRange n) E) :
    Eliminates A .echelon E
  | reduced {E : Elimination m n} {w : Work m n}
    (down : Descends .reduced (start A) (List.finRange n) E)
    (up : Ascends E.toWork E.places w) : Eliminates A .reduced { E with toWork := w }

theorem Eliminates.eliminate_eq {A : Grid m n} {mode : Mode} {E : Elimination m n}
    (h : Eliminates A mode E) : A.eliminate mode = .ok E := by
  cases h with
  | echelon down => rw [Grid.eliminate, down.descend_eq]; rfl
  | reduced down up =>
    rw [Grid.eliminate, down.descend_eq, Except.bind]
    simp only [up.ascend_eq]
    rfl

theorem Descends.swept_start {A : Grid m n} {mode : Mode} {E : Elimination m n}
    (down : Descends mode (start A) (List.finRange n) E) : Swept mode [] E :=
  down.swept (List.pairwise_lt_finRange n) (Swept.start A)

theorem exists_raised {A : Grid m n} {E : Elimination m n}
    (down : Descends .reduced (start A) (List.finRange n) E) :
    ∃ w, Ascends E.toWork E.places w ∧ Raised E.pivots E.places w.grid := by
  have h := down.swept_start
  apply exists_ascends E.toWork (fun _ hx => mem_places.mp hx) E.pairwise_places
  exact ⟨h.isEchelon, h.pivot_one rfl, fun _ hx => absurd hx List.not_mem_nil⟩

theorem exists_eliminates (A : Grid m n) (mode : Mode) : ∃ E, Eliminates A mode E := by
  obtain ⟨E, down⟩ := exists_descends mode (start A) (List.finRange n)
  cases mode with
  | echelon => exact ⟨E, .echelon down⟩
  | reduced =>
    obtain ⟨w, up, _⟩ := exists_raised down
    exact ⟨_, .reduced down up⟩

namespace Eliminates
variable {A : Grid m n} {mode : Mode} {E : Elimination m n}

theorem isReduced (h : Eliminates A .reduced E) : E.grid.IsReduced E.pivots := by
  cases h with
  | @reduced D w down up =>
    -- The pass up has one result, so the work that is known to be raised is the one at hand.
    obtain ⟨w', up', hw'⟩ := exists_raised down
    obtain rfl : w = w' := Except.ok.inj (up.ascend_eq.symm.trans up'.ascend_eq)
    refine ⟨hw'.toIsEchelon, hw'.pivot_one, ?_⟩
    intro i c hc x hx
    rcases lt_or_gt_of_ne hx with hlt | hgt
    · exact hw'.zero_above (i, c) (mem_places.mpr hc) x hlt
    · exact hw'.zero_below hc hgt

theorem isEchelon (h : Eliminates A mode E) : E.grid.IsEchelon E.pivots := by
  cases mode with
  | echelon =>
    cases h with
    | echelon down => exact down.swept_start.isEchelon
  | reduced => exact h.isReduced.toIsEchelon

end Eliminates

end Elimination

end ExactLinear
