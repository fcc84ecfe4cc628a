import ExactLinear.Proofs.Grid
import Mathlib.Data.List.Sort

/- Echelon form and reduced form, said of a grid and the list of its pivot
   columns, and the uniqueness of the reduced form: two reduced grids that have
   the same null vectors have the same pivots (`IsReduced.pivots_eq`), and they
   are equal when they have the same height (`IsReduced.eq_of_sameNull`).

   The argument is carried by one vector for each column `c` (`relation`): it
   writes column `c` of a reduced grid as the combination of the pivot columns
   that the entries of column `c` themselves are. It is a null vector, and what
   it says of another grid with the same null vectors is `IsReduced.get_eq_sum`.
   A column without a pivot is by it a combination of the columns before it, and a
   pivot column never is (`IsReduced.dependent`, `IsEchelon.not_dependent`). -/
namespace ExactLinear.Grid

open scoped Matrix

variable {m n k : Nat}

/-- Echelon form: the pivot of row `i` is in column `p[i]`, further right in every further row,
and the rows after the last pivot are zero. -/
structure IsEchelon (A : Grid m n) (p : List (Fin n)) : Prop where
  increasing : p.Pairwise (· < ·)
  length_le : p.length ≤ m
  zero_before : ∀ (i : Fin m) (c : Fin n), p[i.val]? = some c → ∀ j < c, A.get i j = 0
  pivot_ne_zero : ∀ (i : Fin m) (c : Fin n), p[i.val]? = some c → A.get i c ≠ 0
  zero_rows : ∀ i : Fin m, p.length ≤ i.val → ∀ j, A.get i j = 0

/-- Reduced form: an echelon form in which every pivot is one and alone in its column. -/
structure IsReduced (A : Grid m n) (p : List (Fin n)) : Prop extends A.IsEchelon p where
  pivot_one : ∀ (i : Fin m) (c : Fin n), p[i.val]? = some c → A.get i c = 1
  pivot_alone : ∀ (i : Fin m) (c : Fin n), p[i.val]? = some c → ∀ x, x ≠ i → A.get x c = 0

theorem lt_of_getElem?_lt {p : List (Fin n)} (hp : p.Pairwise (· < ·)) {i x : Nat}
    {c d : Fin n} (hc : p[i]? = some c) (hd : p[x]? = some d) (h : i < x) : c < d := by
  obtain ⟨_, rfl⟩ := List.getElem?_eq_some_iff.mp hc
  obtain ⟨_, rfl⟩ := List.getElem?_eq_some_iff.mp hd
  exact List.pairwise_iff_getElem.mp hp i x _ _ h

theorem IsEchelon.zero_below {A : Grid m n} {p : List (Fin n)} (h : A.IsEchelon p) {i x : Fin m}
    {c : Fin n} (hc : p[i.val]? = some c) (hx : i < x) : A.get x c = 0 := by
  rcases Nat.lt_or_ge x.val p.length with hlt | hge
  · have hd := List.getElem?_eq_getElem hlt
    exact h.zero_before x _ hd c (lt_of_getElem?_lt h.increasing hc hd hx)
  · exact h.zero_rows x hge c

/-! Columns that are combinations of the columns before them. -/

/-- That column `c` is a combination of the columns before it. -/
def Dependent (A : Grid m n) (c : Fin n) : Prop :=
  ∃ x : Fin n → Scalar, (∀ j, c ≤ j → x j = 0) ∧ A.toMatrix *ᵥ x = A.toMatrix.col c

/-- The combination, taken from the column itself, is a null vector that ends in a one. -/
theorem dependent_iff {A : Grid m n} {c : Fin n} :
    A.Dependent c ↔
      ∃ x : Fin n → Scalar, x c = 1 ∧ (∀ j, c < j → x j = 0) ∧ A.toMatrix *ᵥ x = 0 := by
  refine ⟨?_, ?_⟩
  · rintro ⟨x, hx, hcol⟩
    refine ⟨Pi.single c 1 - x, ?_, ?_, ?_⟩
    · simp [hx c le_rfl]
    · intro j hj
      simp [hx j hj.le, hj.ne']
    · rw [Matrix.mulVec_sub, Matrix.mulVec_single_one, hcol, sub_self]
  · rintro ⟨x, hc, hx, hnull⟩
    refine ⟨Pi.single c 1 - x, ?_, ?_⟩
    · intro j hj
      rcases hj.eq_or_lt with rfl | hlt
      · simp [hc]
      · simp [hx j hlt, hlt.ne']
    · rw [Matrix.mulVec_sub, Matrix.mulVec_single_one, hnull, sub_zero]

theorem Dependent.of_null {A : Grid m n} {B : Grid k n} {c : Fin n} (hA : A.Dependent c)
    (h : ∀ x, A.toMatrix *ᵥ x = 0 → B.toMatrix *ᵥ x = 0) : B.Dependent c := by
  obtain ⟨x, hc, hx, hnull⟩ := dependent_iff.mp hA
  exact dependent_iff.mpr ⟨x, hc, hx, h x hnull⟩

/-- In the row of its pivot a pivot column has an entry, and the columns before it have none. -/
theorem IsEchelon.not_dependent {A : Grid m n} {p : List (Fin n)} (h : A.IsEchelon p) {c : Fin n}
    (hc : c ∈ p) : ¬A.Dependent c := by
  intro hdependent
  obtain ⟨x, hxc, hx, hnull⟩ := dependent_iff.mp hdependent
  obtain ⟨i, hi, rfl⟩ := List.mem_iff_getElem.mp hc
  have hpivot := List.getElem?_eq_getElem hi
  have hrow : ∑ j, A.get ⟨i, hi.trans_le h.length_le⟩ j * x j = 0 := congrFun hnull _
  rw [Finset.sum_eq_single p[i], hxc, mul_one] at hrow
  · exact h.pivot_ne_zero _ _ hpivot hrow
  · intro j _ hj
    rcases lt_or_gt_of_ne hj with hlt | hgt
    · rw [h.zero_before _ _ hpivot j hlt, zero_mul]
    · rw [hx j hgt, mul_zero]
  · intro hnot
    exact absurd (Finset.mem_univ _) hnot

/-! Columns of a reduced form as combinations of its pivot columns. -/

/-- Column `c` less the combination of the columns `p` whose factors are the first entries of
column `c` in `R`. -/
def relation (R : Grid m n) (p : List (Fin n)) (hp : p.length ≤ m) (c : Fin n) :
    Fin n → Scalar :=
  Pi.single c 1 - ∑ l : Fin p.length, R.get (Fin.castLE hp l) c • Pi.single (p.get l) 1

theorem mulVec_relation (R : Grid m n) (p : List (Fin n)) (hp : p.length ≤ m) (c : Fin n)
    (S : Grid k n) (i : Fin k) :
    (S.toMatrix *ᵥ R.relation p hp c) i =
      S.get i c - ∑ l : Fin p.length, R.get (Fin.castLE hp l) c * S.get i (p.get l) := by
  simp [relation, Matrix.mulVec_sub, Matrix.mulVec_sum, Matrix.mulVec_smul]

namespace IsReduced

variable {R : Grid m n} {S : Grid k n} {p q : List (Fin n)}

theorem get_pivot (hR : R.IsReduced p) (i : Fin m) (l : Fin p.length) :
    R.get i (p.get l) = if i.val = l.val then 1 else 0 := by
  have hl : p[(Fin.castLE hR.length_le l).val]? = some (p.get l) := by simp
  split
  · next h =>
    have hi : i = Fin.castLE hR.length_le l := Fin.ext h
    rw [hi]
    exact hR.pivot_one _ _ hl
  · next h =>
    exact hR.pivot_alone _ _ hl i fun hi => h (congrArg Fin.val hi)

/-- Of the rows with a pivot only row `i` has an entry in the pivot column of row `i`. -/
theorem sum_get_mul (hR : R.IsReduced p) (i : Fin m) (c : Fin n) :
    ∑ l : Fin p.length, R.get (Fin.castLE hR.length_le l) c * (if i.val = l.val then 1 else 0) =
      R.get i c := by
  by_cases hi : i.val < p.length
  · rw [Finset.sum_eq_single ⟨i.val, hi⟩]
    · rw [if_pos rfl, mul_one]
      rfl
    · intro l _ hl
      rw [if_neg fun h => hl (Fin.ext h.symm), mul_zero]
    · intro h
      exact absurd (Finset.mem_univ _) h
  · rw [hR.zero_rows i (Nat.le_of_not_lt hi) c]
    apply Finset.sum_eq_zero
    intro l _
    rw [if_neg (by omega), mul_zero]

theorem mulVec_relation_eq_zero (hR : R.IsReduced p) (c : Fin n) :
    R.toMatrix *ᵥ R.relation p hR.length_le c = 0 := by
  ext i
  simp only [mulVec_relation, hR.get_pivot, hR.sum_get_mul, sub_self, Pi.zero_apply]

/-- In every grid with the null vectors of a reduced form, a column is the same combination of
the pivot columns as in the reduced form. -/
theorem get_eq_sum (hR : R.IsReduced p)
    (h : ∀ x, R.toMatrix *ᵥ x = 0 → S.toMatrix *ᵥ x = 0) (i : Fin k) (c : Fin n) :
    S.get i c = ∑ l : Fin p.length, R.get (Fin.castLE hR.length_le l) c * S.get i (p.get l) := by
  have hx := congrFun (h _ (hR.mulVec_relation_eq_zero c)) i
  rw [mulVec_relation] at hx
  exact sub_eq_zero.mp hx

/-- Pivots before column `c` do not reach it, and from pivots after it nothing is taken. -/
theorem relation_of_le (hR : R.IsReduced p) {c j : Fin n} (hc : c ∉ p) (hj : c ≤ j) :
    R.relation p hR.length_le c j = (Pi.single c 1 : Fin n → Scalar) j := by
  rw [relation, Pi.sub_apply, sub_eq_self, Finset.sum_apply]
  apply Finset.sum_eq_zero
  intro l _
  rw [Pi.smul_apply, smul_eq_mul]
  rcases lt_trichotomy (p.get l) c with hlt | heq | hgt
  · rw [Pi.single_eq_of_ne (hlt.trans_le hj).ne', mul_zero]
  · exact absurd (heq ▸ List.getElem_mem l.isLt) hc
  · rw [hR.zero_before (Fin.castLE hR.length_le l) (p.get l) (by simp) c hgt, zero_mul]

/-- A column without a pivot is a combination of the pivot columns before it. -/
theorem dependent (hR : R.IsReduced p) {c : Fin n} (hc : c ∉ p) : R.Dependent c := by
  refine dependent_iff.mpr ⟨R.relation p hR.length_le c, ?_, ?_, hR.mulVec_relation_eq_zero c⟩
  · rw [hR.relation_of_le hc le_rfl, Pi.single_eq_same]
  · intro j hj
    rw [hR.relation_of_le hc hj.le, Pi.single_eq_of_ne hj.ne']

/-! Uniqueness. -/

/-- A pivot of `S` that were none of `R` would be a combination of columns before it. -/
theorem mem_of_pivot (hR : R.IsReduced p) (hS : S.IsEchelon q)
    (h : ∀ x, R.toMatrix *ᵥ x = 0 → S.toMatrix *ᵥ x = 0) {c : Fin n} (hc : c ∈ q) : c ∈ p := by
  by_contra hnot
  exact hS.not_dependent hc ((hR.dependent hnot).of_null h)

theorem pivots_eq (hR : R.IsReduced p) (hS : S.IsReduced q) (h : SameNull R S) : p = q := by
  apply hR.increasing.eq_of_mem_iff hS.increasing
  intro c
  refine ⟨?_, ?_⟩
  · exact hS.mem_of_pivot hR.toIsEchelon fun x => (h x).mpr
  · exact hR.mem_of_pivot hS.toIsEchelon fun x => (h x).mp

/-- Rows of one number are the same in both, also when the heights differ. -/
theorem get_eq_of_sameNull (hR : R.IsReduced p) (hS : S.IsReduced q) (h : SameNull R S)
    {i : Fin m} {x : Fin k} (hix : i.val = x.val) (c : Fin n) : R.get i c = S.get x c := by
  obtain rfl := hR.pivots_eq hS h
  rw [hR.get_eq_sum (fun v => (h v).mp) x c]
  simp only [hS.get_pivot, ← hix, hR.sum_get_mul]

theorem eq_of_sameNull {S : Grid m n} (hR : R.IsReduced p) (hS : S.IsReduced q)
    (h : SameNull R S) : R = S :=
  ext_get fun _ c => hR.get_eq_of_sameNull hS h rfl c

end IsReduced

end ExactLinear.Grid
