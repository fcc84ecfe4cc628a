import ExactLinear.Proofs.Elimination.Pivot
import ExactLinear.Proofs.ReducedForm

/- The pass down as a relation between the states before and after it. A run of
   the pass never fails (`exists_descends`), so what holds of every derivation of
   `Descends` holds of every run.

   Main invariant (`Swept`): of the columns that are already behind, the rows
   without a pivot hold nothing, and each row with a pivot starts with it. With
   no column left this is echelon form (`Swept.isEchelon`). -/
namespace ExactLinear.Elimination

variable {m n : Nat}

/-- From the first state, the pass down over the listed columns ends in the second. -/
inductive Descends (mode : Mode) :
    Elimination m n → List (Fin n) → Elimination m n → Prop
  | done (E : Elimination m n) : Descends mode E [] E
  /-- Every row has its pivot. -/
  | full {E : Elimination m n} {c : Fin n} {cs : List (Fin n)} (h : m ≤ E.pivots.length) :
    Descends mode E (c :: cs) E
  | free {E E' : Elimination m n} {c : Fin n} {cs : List (Fin n)} (h : E.pivots.length < m)
    (hfree : pivotRow? E.grid ⟨E.pivots.length, h⟩ c = none) (later : Descends mode E cs E') :
    Descends mode E (c :: cs) E'
  | pivot {E E' : Elimination m n} {c : Fin n} {cs : List (Fin n)} {found : Fin m}
    (h : E.pivots.length < m)
    (hfound : pivotRow? E.grid ⟨E.pivots.length, h⟩ c = some found)
    (later : Descends mode (E.pivoted mode ⟨E.pivots.length, h⟩ found c) cs E') :
    Descends mode E (c :: cs) E'

theorem Descends.descend_eq {mode : Mode} {E E' : Elimination m n} {cs : List (Fin n)}
    (h : Descends mode E cs E') : E.descend mode cs = .ok E' := by
  induction h with
  | done E => rfl
  | full h => rw [descend, dif_neg (Nat.not_lt.mpr h)]
  | free h hfree _ ih =>
    rw [descend, dif_pos h, hfree]
    exact ih
  | pivot h hfound _ ih =>
    rw [descend, dif_pos h, hfound]
    simp only [pivotAt_eq _ _ _ (pivotRow?_eq_some hfound).2]
    exact ih

theorem exists_descends (mode : Mode) (E : Elimination m n) (cs : List (Fin n)) :
    ∃ E', Descends mode E cs E' := by
  induction cs generalizing E with
  | nil => exact ⟨E, .done E⟩
  | cons c cs ih =>
    by_cases h : E.pivots.length < m
    · cases hpivot : pivotRow? E.grid ⟨E.pivots.length, h⟩ c with
      | none =>
        obtain ⟨E', later⟩ := ih E
        exact ⟨E', .free h hpivot later⟩
      | some found =>
        obtain ⟨E', later⟩ := ih (E.pivoted mode ⟨E.pivots.length, h⟩ found c)
        exact ⟨E', .pivot h hpivot later⟩
    · exact ⟨E, .full (Nat.le_of_not_lt h)⟩

/-! The invariant of the pass. -/

/-- The state of a pass down that has the columns `cs` before it. -/
structure Swept (mode : Mode) (cs : List (Fin n)) (E : Elimination m n) : Prop where
  increasing : E.pivots.Pairwise (· < ·)
  length_le : E.pivots.length ≤ m
  behind : ∀ c ∈ E.pivots, ∀ j ∈ cs, c < j
  zero_before : ∀ (i : Fin m) (c : Fin n),
    E.pivots[i.val]? = some c → ∀ j < c, E.grid.get i j = 0
  pivot_ne_zero : ∀ (i : Fin m) (c : Fin n), E.pivots[i.val]? = some c → E.grid.get i c ≠ 0
  pivot_one : mode = .reduced →
    ∀ (i : Fin m) (c : Fin n), E.pivots[i.val]? = some c → E.grid.get i c = 1
  zero_behind : ∀ i : Fin m, E.pivots.length ≤ i.val → ∀ j, j ∉ cs → E.grid.get i j = 0

theorem getElem?_concat_eq_some {α : Type} {p : List α} {c d : α} {i : Nat} :
    (p ++ [c])[i]? = some d ↔ p[i]? = some d ∨ (i = p.length ∧ c = d) := by
  rcases Nat.lt_trichotomy i p.length with h | h | h
  · rw [List.getElem?_append_left h]
    simp [h.ne]
  · subst h
    simp
  · rw [List.getElem?_eq_none (by simp; omega), List.getElem?_eq_none (by omega)]
    simp [h.ne']

theorem le_swap {r found i : Fin m} (hfound : r ≤ found) (hi : r ≤ i) :
    r ≤ Equiv.swap found r i := by
  rw [Equiv.swap_apply_def]
  split
  · exact le_rfl
  · split
    · exact hfound
    · exact hi

/-- After a new pivot, a row with a pivot is an old one and as it was, or it is the new one: the
row that was found, with its pivot scaled. -/
theorem pivots_pivoted_cases (mode : Mode) {E : Elimination m n} {found : Fin m} {c : Fin n}
    (hm : E.pivots.length < m)
    (hfound : pivotRow? E.grid ⟨E.pivots.length, hm⟩ c = some found) {i : Fin m} {d : Fin n}
    (hd : (E.pivoted mode ⟨E.pivots.length, hm⟩ found c).pivots[i.val]? = some d) :
    (E.pivots[i.val]? = some d ∧
      ∀ j, (E.pivoted mode ⟨E.pivots.length, hm⟩ found c).grid.get i j = E.grid.get i j) ∨
    (c = d ∧
      ∀ j, (E.pivoted mode ⟨E.pivots.length, hm⟩ found c).grid.get i j =
        E.grid.get found j * mode.factor (E.grid.get found c)) := by
  obtain ⟨hle, hpivot⟩ := pivotRow?_eq_some hfound
  rcases getElem?_concat_eq_some.mp hd with hold | ⟨hi, hcd⟩
  · obtain ⟨hi, _⟩ := List.getElem?_eq_some_iff.mp hold
    have habove : i < ⟨E.pivots.length, hm⟩ := hi
    exact .inl ⟨hold, get_pivoted_of_lt mode E c hpivot hle habove⟩
  · obtain rfl : i = ⟨E.pivots.length, hm⟩ := Fin.ext hi
    exact .inr ⟨hcd, get_pivoted_self mode E c hpivot⟩

namespace Swept
variable {mode : Mode} {E E' : Elimination m n} {c : Fin n} {cs : List (Fin n)}

theorem start (A : Grid m n) : Swept mode (List.finRange n) (Elimination.start A) where
  increasing := List.Pairwise.nil
  length_le := Nat.zero_le _
  behind := fun _ hc => absurd hc List.not_mem_nil
  zero_before := fun _ _ h => absurd h (by simp [Elimination.start])
  pivot_ne_zero := fun _ _ h => absurd h (by simp [Elimination.start])
  pivot_one := fun _ _ _ h => absurd h (by simp [Elimination.start])
  zero_behind := fun _ _ j hj => absurd (List.mem_finRange j) hj

theorem full (h : Swept mode cs E) (hm : m ≤ E.pivots.length) : Swept mode [] E where
  increasing := h.increasing
  length_le := h.length_le
  behind := fun _ _ _ hj => absurd hj List.not_mem_nil
  zero_before := h.zero_before
  pivot_ne_zero := h.pivot_ne_zero
  pivot_one := h.pivot_one
  zero_behind := fun i hi _ _ => absurd (Nat.le_trans hm hi) (Nat.not_le.mpr i.isLt)

theorem free (h : Swept mode (c :: cs) E) (hm : E.pivots.length < m)
    (hfree : pivotRow? E.grid ⟨E.pivots.length, hm⟩ c = none) : Swept mode cs E where
  increasing := h.increasing
  length_le := h.length_le
  behind := fun d hd j hj => h.behind d hd j (List.mem_cons_of_mem c hj)
  zero_before := h.zero_before
  pivot_ne_zero := h.pivot_ne_zero
  pivot_one := h.pivot_one
  zero_behind := by
    intro i hi j hj
    by_cases hjc : j = c
    · rw [hjc]
      exact pivotRow?_eq_none.mp hfree i hi
    · exact h.zero_behind i hi j (List.not_mem_cons_of_ne_of_not_mem hjc hj)

theorem pivot (h : Swept mode (c :: cs) E) (hcs : ∀ j ∈ cs, c < j)
    (hm : E.pivots.length < m) {found : Fin m}
    (hfound : pivotRow? E.grid ⟨E.pivots.length, hm⟩ c = some found) :
    Swept mode cs (E.pivoted mode ⟨E.pivots.length, hm⟩ found c) := by
  obtain ⟨hle, hpivot⟩ := pivotRow?_eq_some hfound
  have hbefore : ∀ j < c, j ∉ c :: cs := by
    intro j hj hmem
    rcases List.mem_cons.mp hmem with rfl | hmem
    · exact lt_irrefl _ hj
    · exact lt_asymm hj (hcs j hmem)
  constructor
  case increasing =>
    refine List.pairwise_append.mpr ⟨h.increasing, List.pairwise_singleton _ _, ?_⟩
    intro d hd j hj
    rw [List.mem_singleton.mp hj]
    exact h.behind d hd c List.mem_cons_self
  case length_le => simpa [pivoted] using hm
  case behind =>
    intro d hd j hj
    rcases List.mem_append.mp hd with hd | hd
    · exact h.behind d hd j (List.mem_cons_of_mem c hj)
    · rw [List.mem_singleton.mp hd]
      exact hcs j hj
  case zero_before =>
    intro i d hd j hj
    rcases pivots_pivoted_cases mode hm hfound hd with ⟨hold, hsame⟩ | ⟨rfl, hnew⟩
    · rw [hsame, h.zero_before i d hold j hj]
    · -- The row that was found has no pivot yet, so it holds nothing behind.
      rw [hnew, h.zero_behind found hle j (hbefore j hj), zero_mul]
  case pivot_ne_zero =>
    intro i d hd
    rcases pivots_pivoted_cases mode hm hfound hd with ⟨hold, hsame⟩ | ⟨rfl, hnew⟩
    · rw [hsame]
      exact h.pivot_ne_zero i d hold
    · rw [hnew]
      exact mul_ne_zero hpivot (mode.factor_ne_zero hpivot)
  case pivot_one =>
    intro hmode i d hd
    rcases pivots_pivoted_cases mode hm hfound hd with ⟨hold, hsame⟩ | ⟨rfl, hnew⟩
    · rw [hsame]
      exact h.pivot_one hmode i d hold
    · rw [hnew, hmode]
      exact mul_one_div_cancel hpivot
  case zero_behind =>
    intro i hi j hj
    have hri : (⟨E.pivots.length, hm⟩ : Fin m) < i := by
      rw [Fin.lt_def]
      simpa [pivoted, Nat.succ_le_iff] using hi
    rw [get_pivoted_of_gt mode E c hpivot hri]
    by_cases hjc : j = c
    · -- The column of the new pivot is what the step clears.
      rw [hjc, div_mul_cancel₀ _ hpivot, sub_self]
    · -- Further left both rows that take part hold nothing.
      have hjcs := List.not_mem_cons_of_ne_of_not_mem hjc hj
      rw [h.zero_behind _ (le_swap hle hri.le) j hjcs, h.zero_behind found hle j hjcs, mul_zero,
        sub_zero]

theorem isEchelon (h : Swept mode [] E) : E.grid.IsEchelon E.pivots where
  increasing := h.increasing
  length_le := h.length_le
  zero_before := h.zero_before
  pivot_ne_zero := h.pivot_ne_zero
  zero_rows := fun i hi j => h.zero_behind i hi j List.not_mem_nil

end Swept

theorem Descends.swept {mode : Mode} {E E' : Elimination m n} {cs : List (Fin n)}
    (hrun : Descends mode E cs E') (hcs : cs.Pairwise (· < ·)) (h : Swept mode cs E) :
    Swept mode [] E' := by
  induction hrun with
  | done E => exact h
  | full hm => exact h.full hm
  | free hm hfree _ ih => exact ih hcs.of_cons (h.free hm hfree)
  | pivot hm hfound _ ih =>
    exact ih hcs.of_cons (h.pivot (fun _ => List.rel_of_pairwise_cons hcs) hm hfound)

end ExactLinear.Elimination
