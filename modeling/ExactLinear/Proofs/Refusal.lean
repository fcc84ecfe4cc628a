import ExactLinear.Family
import ExactLinear.Proofs.Invertible

/- What the algebra refuses. Elimination divides and so might fail, but its divisors are
   pivots, and it never does; what is read off an elimination is refused over shapes
   alone. That leaves two other refusals, each with one source: a division by zero is
   one that was asked for, and a singular matrix is one whose inverse was asked for. -/
namespace ExactLinear

/-- A computation whose failure, should it fail, has a property. -/
def FailsOnly {ε α : Type} (P : ε → Prop) (r : Except ε α) : Prop := ∀ e, r = .error e → P e

namespace FailsOnly
variable {ε α β : Type} {P Q : ε → Prop} {r : Except ε α}

theorem ok (a : α) : FailsOnly P (.ok a) := nofun

theorem error {e : ε} (h : P e) : FailsOnly P (.error e : Except ε α) := by
  intro _ he
  cases he
  exact h

theorem mono (h : FailsOnly P r) (hPQ : ∀ e, P e → Q e) : FailsOnly Q r :=
  fun e he => hPQ e (h e he)

theorem bind {f : α → Except ε β} (h : FailsOnly P r)
    (hf : ∀ a, r = .ok a → FailsOnly P (f a)) : FailsOnly P (r.bind f) := by
  cases r with
  | ok a => exact hf a rfl
  | error e => exact error (h e rfl)

theorem map (h : FailsOnly P r) (g : α → β) : FailsOnly P (r.map g) := by
  cases r with
  | ok a => exact ok (g a)
  | error e => exact error (h e rfl)

theorem ite {c : Prop} [Decidable c] {r' : Except ε α} (h : c → FailsOnly P r)
    (h' : ¬c → FailsOnly P r') : FailsOnly P (if c then r else r') := by
  split
  · next hc => exact h hc
  · next hc => exact h' hc

theorem dite {c : Prop} [Decidable c] {f : c → Except ε α} {f' : ¬c → Except ε α}
    (h : ∀ hc, FailsOnly P (f hc)) (h' : ∀ hc, FailsOnly P (f' hc)) :
    FailsOnly P (if hc : c then f hc else f' hc) := by
  split
  · next hc => exact h hc
  · next hc => exact h' hc

end FailsOnly

/-- A refusal over shapes. -/
def AlgebraError.IsShape (e : AlgebraError) : Prop := ∃ mismatch, e = .shape mismatch

theorem FailsOnly.shape {α : Type} {mismatch : ShapeError} :
    FailsOnly AlgebraError.IsShape (.error (.shape mismatch) : Except AlgebraError α) :=
  .error ⟨mismatch, rfl⟩

/-! Division. -/

theorem Scalar.failsOnly_divide (a b : Scalar) :
    FailsOnly (fun e => e = .divisionByZero ∧ b = 0) (divide a b) :=
  .ite (fun hb => .error ⟨rfl, hb⟩) fun _ => .ok _

namespace Mat

theorem failsOnly_divide (A : Mat) (q : Scalar) :
    FailsOnly (fun e => e = .divisionByZero ∧ q = 0) (A.divide q) :=
  (Scalar.failsOnly_divide 1 q).map _

/-! Shapes. -/

section
variable (A B : Mat)

theorem failsOnly_add : FailsOnly AlgebraError.IsShape (A.add B) :=
  .dite (fun _ => .ok _) fun _ => .shape

theorem failsOnly_sub : FailsOnly AlgebraError.IsShape (A.sub B) :=
  .dite (fun _ => .ok _) fun _ => .shape

theorem failsOnly_mul : FailsOnly AlgebraError.IsShape (A.mul B) :=
  .dite (fun _ => .ok _) fun _ => .shape

theorem failsOnly_augment : FailsOnly AlgebraError.IsShape (A.augment B) :=
  .dite (fun _ => .ok _) fun _ => .shape

end

theorem failsOnly_augmentAll (A : Mat) (rest : List Mat) :
    FailsOnly AlgebraError.IsShape (A.augmentAll rest) := by
  induction rest generalizing A with
  | nil => exact .ok A
  | cons B rest ih =>
    rw [augmentAll]
    split
    · exact ih _
    · next e he => exact .error (A.failsOnly_augment B e he)

theorem failsOnly_ofValues (rows cols : Nat) (values : List Scalar) :
    FailsOnly AlgebraError.IsShape (ofValues rows cols values) := by
  refine .dite (fun _ => .shape) fun _ => ?_
  refine .dite (fun _ => .shape) fun _ => ?_
  exact .dite (fun _ => .ok _) fun _ => .shape

theorem failsOnly_ofRows (rows : List (List Scalar)) :
    FailsOnly AlgebraError.IsShape (ofRows rows) := by
  rw [ofRows]
  split
  · exact .shape
  · exact failsOnly_ofValues _ _ _

/-! What is read off an elimination. -/

/-- No divisor that elimination meets is zero. -/
theorem failsOnly_eliminate {P : AlgebraError → Prop} (A : Mat) (mode : Mode) :
    FailsOnly P (A.eliminate mode) := by
  obtain ⟨E, hE⟩ := Elimination.exists_eliminates A.grid mode
  rw [eliminate, hE.eliminate_eq]
  exact .ok E

theorem failsOnly_rank {P : AlgebraError → Prop} (A : Mat) : FailsOnly P A.rank :=
  (A.failsOnly_eliminate .echelon).map _

theorem failsOnly_determinant (A : Mat) : FailsOnly AlgebraError.IsShape A.determinant :=
  .ite (fun _ => (A.failsOnly_eliminate .echelon).map _) fun _ => .shape

theorem failsOnly_inverse (A : Mat) :
    FailsOnly (fun e => e.IsShape ∨ e = .singular) A.inverse := by
  obtain ⟨E, hE⟩ := Elimination.exists_eliminates (A.grid.augment (Grid.identity A.rows)) .reduced
  rw [inverse, hE.eliminate_eq]
  refine .ite (fun _ => ?_) fun _ => .error (.inl ⟨_, rfl⟩)
  exact .ite (fun _ => .ok _) fun _ => .error (.inr rfl)

/-- A matrix found singular is one that lacks rank. -/
theorem rank_lt_of_inverse_eq_singular {A : Mat} (h : A.inverse = .error .singular) :
    A.rows = A.cols ∧ A.grid.toMatrix.rank < A.rows := by
  have hsquare : A.rows = A.cols := rows_eq_cols_of_inverse (by simp [h])
  obtain ⟨n, k, hn, hk, G⟩ := A
  obtain rfl : n = k := hsquare
  refine ⟨rfl, lt_of_le_of_ne (Matrix.rank_le_width _) ?_⟩
  intro hfull
  obtain ⟨B, hB⟩ := (exists_inverse_square_iff hn G).mpr (Grid.det_ne_zero_iff_rank.mpr hfull)
  cases hB.symm.trans h

end Mat

/-! Questions about families. -/

namespace Family

theorem failsOnly_joined (operation : String) (family : List Mat) :
    FailsOnly AlgebraError.IsShape (joined operation family) := by
  cases family with
  | nil => exact .shape
  | cons A rest => exact A.failsOnly_augmentAll rest

section
variable (family : List Mat)

theorem failsOnly_span : FailsOnly AlgebraError.IsShape (span family) :=
  (failsOnly_joined _ family).bind fun A _ => (A.failsOnly_eliminate .reduced).map _

theorem failsOnly_dimension : FailsOnly AlgebraError.IsShape (dimension family) :=
  (failsOnly_joined _ family).bind fun A _ => A.failsOnly_rank

theorem failsOnly_isIndependent : FailsOnly AlgebraError.IsShape (isIndependent family) :=
  (failsOnly_joined _ family).bind fun A _ => A.failsOnly_rank.map _

theorem failsOnly_isBasis : FailsOnly AlgebraError.IsShape (isBasis family) := by
  refine (failsOnly_joined _ family).bind fun A _ => ?_
  exact .ite (fun _ => A.failsOnly_rank.map _) fun _ => .ok false

end

theorem failsOnly_spans (vectors target : Mat) :
    FailsOnly AlgebraError.IsShape (spans vectors target) := by
  refine .ite (fun _ => ?_) fun _ => .shape
  refine vectors.failsOnly_rank.bind fun own _ => ?_
  refine (vectors.failsOnly_augment target).bind fun both _ => ?_
  exact both.failsOnly_rank.map _

end Family

end ExactLinear
