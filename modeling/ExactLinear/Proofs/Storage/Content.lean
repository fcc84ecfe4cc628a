import ExactLinear.Proofs.Evaluation.Operation
import ExactLinear.Proofs.Storage.Space
import ExactLinear.Storage.Content

/- Operators and functions on stored values. A function that is called with a number of
   arguments that it accepts finds each argument that it asks for. -/
namespace ExactLinear.Storage.Content

theorem asTable_eq (context : String) (value : Value) :
    (ofValue value).asTable context = attempt ((value.asMatrix context).map Table.ofMat) := by
  cases value <;> rfl

theorem asScalar_eq (context : String) (value : Value) :
    (ofValue value).asScalar context = attempt (value.asScalar context) := by
  cases value <;> rfl

/-- Operations whose results are matrices. -/
theorem ofAlgebra_table {r : Checked AlgebraError Table} {r' : Except AlgebraError Mat}
    (h : r = attempt (r'.map Table.ofMat)) :
    ofAlgebra table r = attempt ((ExactLinear.ofAlgebra .matrix r').map ofValue) := by
  rw [h]
  cases r' <;> rfl

/-- Operations whose results are stored as they are. -/
theorem ofAlgebra_eq {α : Type} (make : α → Content) (make' : α → Value)
    (hmake : ∀ a, make a = ofValue (make' a)) {r : Checked AlgebraError α}
    {r' : Except AlgebraError α} (h : r = attempt r') :
    ofAlgebra make r = attempt ((ExactLinear.ofAlgebra make' r').map ofValue) := by
  rw [h]
  cases r' with
  | ok a => exact congrArg Except.ok (hmake a)
  | error e => rfl

/-! Operators. -/

theorem negate_eq (value : Value) : (ofValue value).negate = attempt (value.negate.map ofValue) := by
  cases value with
  | matrix A =>
    rw [ofValue, negate, Table.neg_eq]
    rfl
  | scalar q | boolean b => rfl

theorem combine_eq (op : BinaryOp) (left right : Value) :
    combine op (ofValue left) (ofValue right) = attempt ((op.apply left right).map ofValue) := by
  cases left with
  | scalar a =>
    cases right with
    | scalar b =>
      cases op with
      | div => exact ofAlgebra_eq .scalar .scalar (fun _ => rfl) rfl
      | add | sub | mul => rfl
    | matrix B =>
      cases op with
      | mul => exact congrArg (Except.map table) (Table.scale_eq a B)
      | add | sub | div => rfl
    | boolean b => cases op <;> rfl
  | matrix A =>
    cases right with
    | scalar b =>
      cases op with
      | mul => exact congrArg (Except.map table) (Table.scale_eq b A)
      | div => exact ofAlgebra_table (Table.divide_eq A b)
      | add | sub => rfl
    | matrix B =>
      cases op with
      | add => exact ofAlgebra_table (Table.add_eq A B)
      | sub => exact ofAlgebra_table (Table.sub_eq A B)
      | mul => exact ofAlgebra_table (Table.mul_eq A B)
      | div => rfl
    | boolean b => cases op <;> rfl
  | boolean a => cases op <;> cases right <;> rfl

/-! Functions. -/

theorem mapM_asTable (context : String) (values : List Value) :
    (values.map ofValue).mapM (asTable context) =
      attempt ((asMatrices context values).map fun As => As.map Table.ofMat) := by
  induction values with
  | nil => rfl
  | cons value values ih =>
    rw [List.map_cons, List.mapM_cons, asTable_eq, ih, asMatrices]
    cases value.asMatrix context with
    | error e => rfl
    | ok A => cases asMatrices context values <;> rfl

theorem onTables_eq {f : Builtin} {compute : List Mat → Except RuntimeCause Value}
    {compute' : List Table → Checked RuntimeCause Content}
    (h : ∀ As, compute' (As.map Table.ofMat) = attempt ((compute As).map ofValue))
    (values : List Value) :
    onTables f (values.map ofValue) compute' = attempt ((f.onMatrices values compute).map ofValue) := by
  rw [onTables, mapM_asTable, Builtin.onMatrices]
  exact attempt_bind h

theorem onTable_eq {f : Builtin} {compute : Mat → Except RuntimeCause Value}
    {compute' : Table → Checked RuntimeCause Content}
    (h : ∀ A, compute' (Table.ofMat A) = attempt ((compute A).map ofValue))
    (value : Value) (rest : List Value) :
    onTable f ((value :: rest).map ofValue) compute' =
      attempt ((f.onMatrix (value :: rest) compute).map ofValue) := by
  show ((ofValue value).asTable f.name >>= compute') = _
  rw [asTable_eq]
  exact attempt_bind h

theorem identityOf_eq (size : Scalar) :
    identityOf size = attempt ((Builtin.identityOf size).map ofValue) := by
  unfold identityOf Builtin.identityOf
  split
  · cases Scalar.toCount? size with
    | none => rfl
    | some n =>
      by_cases h : 1 ≤ n ∧ n ≤ Builtin.largestIdentity
      · simp only [if_pos h, dif_pos h, Table.identity_eq h.1]
        rfl
      · simp only [if_neg h, dif_neg h]
        rfl
  · rfl

/-- A function that accepts the number of its arguments does to stored values what it does to
values. -/
theorem call_eq {f : Builtin} {values : List Value}
    (h : f.arity.accepts values.length = true) :
    call f (values.map ofValue) = attempt ((f.apply values).map ofValue) := by
  -- No function is called without arguments, so there is one with number 0.
  obtain ⟨value, rest, rfl⟩ := List.exists_cons_of_length_pos (Builtin.pos_of_accepts h)
  cases f with
  | inverse => exact onTable_eq (fun A => ofAlgebra_table (Table.inverse_eq A)) value rest
  | rref => exact onTable_eq (fun A => ofAlgebra_table (Table.reduced_eq A)) value rest
  | ef => exact onTable_eq (fun A => ofAlgebra_table (Table.echelon_eq A)) value rest
  | columnSpace => exact onTable_eq (fun A => ofAlgebra_table (Table.columnSpace_eq A)) value rest
  | rowSpace => exact onTable_eq (fun A => ofAlgebra_table (Table.rowSpace_eq A)) value rest
  | transpose =>
    exact onTable_eq (fun A => congrArg (Except.map table) (Table.transpose_eq A)) value rest
  | determinant =>
    exact onTable_eq
      (fun A => ofAlgebra_eq .scalar .scalar (fun _ => rfl) (Table.determinant_eq A)) value rest
  | rank =>
    exact onTable_eq
      (fun A => ofAlgebra_eq ofCount .ofCount (fun _ => rfl) (Table.rank_eq A)) value rest
  | nullity =>
    exact onTable_eq
      (fun A => ofAlgebra_eq ofCount .ofCount (fun _ => rfl) (Table.nullity_eq A)) value rest
  | isConsistent =>
    exact onTable_eq
      (fun A => ofAlgebra_eq .boolean .boolean (fun _ => rfl) (Table.isConsistent_eq A)) value rest
  | span => exact onTables_eq (fun As => ofAlgebra_table (Table.span_eq As)) _
  | dimension =>
    exact onTables_eq
      (fun As => ofAlgebra_eq ofCount .ofCount (fun _ => rfl) (Table.dimension_eq As)) _
  | isIndependent =>
    exact onTables_eq
      (fun As => ofAlgebra_eq .boolean .boolean (fun _ => rfl) (Table.isIndependent_eq As)) _
  | isBasis =>
    exact onTables_eq
      (fun As => ofAlgebra_eq .boolean .boolean (fun _ => rfl) (Table.isBasis_eq As)) _
  | augment =>
    refine onTables_eq (fun As => ?_) _
    cases As with
    | nil => rfl
    | cons A rest => exact ofAlgebra_table (Table.augmentAll_eq A rest)
  | spans =>
    -- Exactly two arguments are accepted, so there is one with number 1.
    obtain ⟨target, rfl⟩ := List.length_eq_one_iff.mp (Nat.succ.inj (beq_iff_eq.mp h))
    show ((ofValue value).asTable "spans" >>= fun vectors =>
      (ofValue target).asTable "spans" >>= fun T => ofAlgebra boolean (Table.spans vectors T)) = _
    rw [asTable_eq]
    refine attempt_bind (f := fun A => (target.asMatrix "spans").bind fun B =>
      ExactLinear.ofAlgebra .boolean (Family.spans A B)) fun A => ?_
    rw [asTable_eq]
    exact attempt_bind fun B => ofAlgebra_eq .boolean .boolean (fun _ => rfl) (Table.spans_eq A B)
  | identity =>
    show ((ofValue value).asScalar "identity" >>= identityOf) =
      attempt (((value.asScalar "identity").bind Builtin.identityOf).map ofValue)
    rw [asScalar_eq]
    cases value.asScalar "identity" with
    | ok size => exact identityOf_eq size
    | error e => rfl

/-- Without the arguments that it takes for granted, a function stops the program. -/
example : call .rank [] = .error (.panic (.index 0 0)) := rfl

end ExactLinear.Storage.Content
