import ExactLinear.Evaluation.Kind
import ExactLinear.Proofs.Evaluation.Outcome
import Mathlib.Data.List.Basic

/- The operators and the functions keep to their kinds. Operands or arguments of the
   kinds asked for lead to a value of the kind promised, unless the algebra refuses
   them; other ones lead to no value at all. -/
namespace ExactLinear

/-- A computation with a value of the given kind, unless it fails in the algebra. -/
inductive Yields (k : Kind) : Except RuntimeCause Value → Prop
  | value {value : Value} : value.kind = k → Yields k (.ok value)
  | algebra {e : AlgebraError} : Yields k (.error (.algebra e))

namespace Yields

theorem ofAlgebra {α : Type} {k : Kind} (make : α → Value) (h : ∀ a, (make a).kind = k)
    (r : Except AlgebraError α) : Yields k (ofAlgebra make r) := by
  cases r with
  | ok a => exact .value (h a)
  | error e => exact .algebra

theorem kind_eq {k : Kind} {r : Except RuntimeCause Value} {value : Value} (h : Yields k r)
    (hr : r = .ok value) : value.kind = k := by
  subst hr
  cases h with
  | value h => exact h

end Yields

/-! Operators. -/

namespace Value

theorem kind_ne_boolean_of_negate {value result : Value} (h : value.negate = .ok result) :
    value.kind ≠ .boolean := by
  cases value with
  | boolean b => cases h
  | scalar q | matrix A => simp [kind]

theorem yields_negate {value : Value} (h : value.kind ≠ .boolean) :
    Yields value.kind value.negate := by
  cases value with
  | boolean b => exact absurd rfl h
  | scalar q | matrix A => exact .value rfl

end Value

theorem exists_combines {op : BinaryOp} {left right value : Value}
    (h : op.apply left right = .ok value) : ∃ k, op.Combines left.kind right.kind k := by
  unfold BinaryOp.apply at h
  split at h
  · exact ⟨_, .scalars⟩
  · exact ⟨_, .scalars⟩
  · exact ⟨_, .scalars⟩
  · exact ⟨_, .scalars⟩
  · exact ⟨_, .sum⟩
  · exact ⟨_, .difference⟩
  · exact ⟨_, .product⟩
  · exact ⟨_, .scalarTimes⟩
  · exact ⟨_, .timesScalar⟩
  · exact ⟨_, .overScalar⟩
  · cases h

theorem BinaryOp.Combines.yields {op : BinaryOp} {left right : Value} {k : Kind}
    (h : op.Combines left.kind right.kind k) : Yields k (op.apply left right) := by
  cases left with
  | scalar a =>
    cases right with
    | scalar b =>
      cases h with
      | scalars =>
        cases op with
        | div => exact .ofAlgebra .scalar (fun _ => rfl) _
        | _ => exact .value rfl
    | matrix B =>
      cases h with
      | scalarTimes => exact .value rfl
    | boolean b => cases h
  | matrix A =>
    cases right with
    | scalar b =>
      cases h with
      | timesScalar => exact .value rfl
      | overScalar => exact .ofAlgebra .matrix (fun _ => rfl) _
    | matrix B =>
      cases h <;> exact .ofAlgebra .matrix (fun _ => rfl) _
    | boolean b => cases h
  | boolean a => cases h

/-! Functions. -/

namespace Builtin
variable {f : Builtin} {values : List Value} {value : Value}

theorem asMatrices_map (context : String) (As : List Mat) :
    asMatrices context (As.map .matrix) = .ok As := by
  induction As with
  | nil => rfl
  | cons A As ih => simp [asMatrices, Value.asMatrix, ih, Except.bind, Except.map]

theorem exists_of_asMatrices {context : String} {As : List Mat}
    (h : asMatrices context values = .ok As) : values = As.map .matrix := by
  induction values generalizing As with
  | nil =>
    cases h
    rfl
  | cons value values ih =>
    simp only [asMatrices, bind_eq_ok_iff, map_eq_ok_iff, asMatrix_eq_ok_iff] at h
    obtain ⟨A, rfl, As', hAs, rfl⟩ := h
    rw [ih hAs, List.map_cons]

theorem exists_of_matrixArgument {context : String} {index : Nat} {A : Mat}
    (h : matrixArgument context values index = .ok A) : values[index]? = some (.matrix A) := by
  simp only [matrixArgument, argument, bind_eq_ok_iff, asMatrix_eq_ok_iff] at h
  obtain ⟨value, hvalue, rfl⟩ := h
  split at hvalue
  · next hget =>
    cases hvalue
    exact hget
  · cases hvalue

theorem exists_of_kind {values : List Value} (h : ∀ v ∈ values, v.kind = .matrix) :
    ∃ As : List Mat, values = As.map .matrix := by
  induction values with
  | nil => exact ⟨[], rfl⟩
  | cons value values ih =>
    obtain ⟨hvalue, hvalues⟩ := List.forall_mem_cons.mp h
    obtain ⟨As, rfl⟩ := ih hvalues
    cases value with
    | matrix A => exact ⟨A :: As, rfl⟩
    | scalar q => cases hvalue
    | boolean b => cases hvalue

theorem pos_of_accepts {n : Nat} (h : f.arity.accepts n = true) : 0 < n := by
  cases f <;> simp [arity, Arity.accepts] at h <;> omega

/-- A function other than `identity` that has a value has it for matrices. -/
theorem exists_of_apply (hf : f ≠ .identity) (harity : f.arity.accepts values.length = true)
    (h : f.apply values = .ok value) : ∃ As : List Mat, values = As.map .matrix := by
  have hmatrix : ∀ compute, values.length = 1 → f.onMatrix values compute = .ok value →
      ∃ As : List Mat, values = As.map .matrix := by
    intro compute hlength hrun
    obtain ⟨A, hA, -⟩ := bind_eq_ok_iff.mp hrun
    obtain ⟨v, rfl⟩ := List.length_eq_one_iff.mp hlength
    exact ⟨[A], congrArg (· :: []) (Option.some.inj (exists_of_matrixArgument hA))⟩
  have hmatrices : ∀ compute, f.onMatrices values compute = .ok value →
      ∃ As : List Mat, values = As.map .matrix := by
    intro compute hrun
    obtain ⟨As, hAs, -⟩ := bind_eq_ok_iff.mp hrun
    exact ⟨As, exists_of_asMatrices hAs⟩
  cases f with
  | identity => exact absurd rfl hf
  | span | dimension | isIndependent | isBasis | augment => exact hmatrices _ h
  | spans =>
    obtain ⟨v, w, rfl⟩ := List.length_eq_two.mp (beq_iff_eq.mp harity)
    simp only [apply, bind_eq_ok_iff] at h
    obtain ⟨A, hA, B, hB, -⟩ := h
    obtain rfl := Option.some.inj (exists_of_matrixArgument hA)
    obtain rfl := Option.some.inj (exists_of_matrixArgument hB)
    exact ⟨[A, B], rfl⟩
  | _ => exact hmatrix _ (beq_iff_eq.mp harity) h

theorem yields_apply (hf : f ≠ .identity) {As : List Mat}
    (harity : f.arity.accepts As.length = true) :
    Yields f.resultKind (f.apply (As.map .matrix)) := by
  have hmatrices : ∀ compute, f.onMatrices (As.map .matrix) compute = compute As := by
    intro compute
    rw [onMatrices, asMatrices_map]
    rfl
  obtain ⟨A, rest, rfl⟩ := List.exists_cons_of_length_pos (pos_of_accepts harity)
  cases f with
  | identity => exact absurd rfl hf
  | span | augment =>
    show Yields .matrix (onMatrices _ _ _)
    rw [hmatrices]
    exact .ofAlgebra .matrix (fun _ => rfl) _
  | dimension =>
    show Yields .scalar (onMatrices _ _ _)
    rw [hmatrices]
    exact .ofAlgebra .ofCount (fun _ => rfl) _
  | isIndependent | isBasis =>
    show Yields .boolean (onMatrices _ _ _)
    rw [hmatrices]
    exact .ofAlgebra .boolean (fun _ => rfl) _
  | spans =>
    obtain ⟨B, rfl⟩ := List.length_eq_one_iff.mp (Nat.succ.inj (beq_iff_eq.mp harity))
    exact .ofAlgebra .boolean (fun _ => rfl) _
  | transpose => exact .value rfl
  | determinant => exact .ofAlgebra .scalar (fun _ => rfl) _
  | rank | nullity => exact .ofAlgebra .ofCount (fun _ => rfl) _
  | isConsistent => exact .ofAlgebra .boolean (fun _ => rfl) _
  | inverse | rref | ef | columnSpace | rowSpace => exact .ofAlgebra .matrix (fun _ => rfl) _

theorem argumentKind_eq_matrix (hf : f ≠ .identity) : f.argumentKind = .matrix := by
  cases f with
  | identity => exact absurd rfl hf
  | _ => rfl

theorem kind_of_apply (harity : f.arity.accepts values.length = true)
    (h : f.apply values = .ok value) : ∀ v ∈ values, v.kind = f.argumentKind := by
  by_cases hf : f = .identity
  · subst hf
    obtain ⟨v, rfl⟩ := List.length_eq_one_iff.mp (beq_iff_eq.mp harity)
    simp only [apply, bind_eq_ok_iff, asScalar_eq_ok_iff] at h
    obtain ⟨_, ⟨_, hv, rfl⟩, -⟩ := h
    obtain rfl := Except.ok.inj hv
    exact List.forall_mem_singleton.mpr rfl
  · obtain ⟨As, rfl⟩ := exists_of_apply hf harity h
    rw [argumentKind_eq_matrix hf]
    exact List.forall_mem_map.mpr fun _ _ => rfl

/-- Called with arguments of the right number and kinds, a function gives a value of its kind, or
fails in the algebra, or is `identity` asked for a size that is no integer. -/
theorem apply_cases (harity : f.arity.accepts values.length = true)
    (hkinds : ∀ v ∈ values, v.kind = f.argumentKind) :
    Yields f.resultKind (f.apply values) ∨
      f = .identity ∧ ∃ size : Scalar, values = [.scalar size] ∧ size.den ≠ 1 ∧
        f.apply values = .error (.typeMismatch (.sizeNotInteger size)) := by
  by_cases hf : f = .identity
  · subst hf
    obtain ⟨v, rfl⟩ := List.length_eq_one_iff.mp (beq_iff_eq.mp harity)
    cases v with
    | matrix A => cases hkinds _ List.mem_cons_self
    | boolean b => cases hkinds _ List.mem_cons_self
    | scalar size =>
      have hrun : apply .identity [.scalar size] = identityOf size := rfl
      by_cases hden : size.den = 1
      · left
        rw [hrun, identityOf, if_pos hden]
        split
        · split
          · exact .value rfl
          · exact .algebra
        · exact .algebra
      · exact .inr ⟨rfl, size, rfl, hden, hrun.trans (if_neg hden)⟩
  · rw [argumentKind_eq_matrix hf] at hkinds
    obtain ⟨As, rfl⟩ := exists_of_kind hkinds
    exact .inl (yields_apply hf (by simpa using harity))

theorem kind_eq_of_apply (harity : f.arity.accepts values.length = true)
    (hkinds : ∀ v ∈ values, v.kind = f.argumentKind) (h : f.apply values = .ok value) :
    value.kind = f.resultKind := by
  rcases apply_cases harity hkinds with hyields | ⟨-, _, -, -, hfail⟩
  · exact hyields.kind_eq h
  · rw [h] at hfail
    cases hfail

end Builtin

end ExactLinear
