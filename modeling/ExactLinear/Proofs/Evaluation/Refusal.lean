import ExactLinear.Proofs.Evaluation.Outcome
import ExactLinear.Proofs.Evaluation.Operation
import ExactLinear.Proofs.Refusal

/- Where an expression is refused by the algebra. Operators and functions say by their
   operands what they can be refused for; an evaluation that ends in a refusal has one
   node that was refused, with operands that have values, and reports its line. -/
namespace ExactLinear

/-- That a cause, should it come from the algebra, has a property. -/
def RuntimeCause.Algebraic (P : AlgebraError → Prop) (cause : RuntimeCause) : Prop :=
  ∀ e, cause = .algebra e → P e

namespace FailsOnly
variable {α : Type} {P : AlgebraError → Prop}

theorem typeMismatch {mismatch : TypeMismatch} :
    FailsOnly (RuntimeCause.Algebraic P) (.error (.typeMismatch mismatch) : Except _ α) :=
  .error nofun

theorem algebra {e : AlgebraError} (h : P e) :
    FailsOnly (RuntimeCause.Algebraic P) (.error (.algebra e) : Except _ α) := by
  refine .error ?_
  intro _ he
  cases he
  exact h

theorem ofAlgebra {make : α → Value} {r : Except AlgebraError α} (h : FailsOnly P r) :
    FailsOnly (RuntimeCause.Algebraic P) (ofAlgebra make r) := by
  cases r with
  | ok a => exact .ok (make a)
  | error e => exact .algebra (h e rfl)

theorem ofShape {make : α → Value} {r : Except AlgebraError α}
    (h : FailsOnly AlgebraError.IsShape r) (hP : ∀ mismatch, P (.shape mismatch)) :
    FailsOnly (RuntimeCause.Algebraic P) (ExactLinear.ofAlgebra make r) := by
  refine ofAlgebra (h.mono ?_)
  intro e he
  obtain ⟨mismatch, rfl⟩ := he
  exact hP mismatch

theorem onLine {P : RuntimeError → Prop} {Q : RuntimeCause → Prop} {line : Nat}
    {r : Except RuntimeCause α} (h : FailsOnly Q r) (hQ : ∀ cause, Q cause → P ⟨cause, line⟩) :
    FailsOnly P (onLine line r) := by
  cases r with
  | ok a => exact .ok a
  | error cause => exact .error (hQ cause (h cause rfl))

theorem mapM {ε α β : Type} {P : ε → Prop} {f : α → Except ε β} {xs : List α}
    (h : ∀ x ∈ xs, FailsOnly P (f x)) : FailsOnly P (xs.mapM f) := by
  intro e he
  obtain ⟨x, hx, he⟩ := exists_of_mapM_eq_error he
  exact h x hx e he

end FailsOnly

/-! Operators. -/

/-- What an operator is refused for. -/
inductive BinaryOp.Refuses (left right : Value) : BinaryOp → AlgebraError → Prop
  | shape {op : BinaryOp} {mismatch : ShapeError} : Refuses left right op (.shape mismatch)
  | division : left.kind = .scalar ∨ left.kind = .matrix → right = .scalar 0 →
      Refuses left right .div .divisionByZero

theorem BinaryOp.failsOnly_apply (op : BinaryOp) (left right : Value) :
    FailsOnly (RuntimeCause.Algebraic (op.Refuses left right)) (op.apply left right) := by
  unfold apply
  split
  · exact .ok _
  · exact .ok _
  · exact .ok _
  · refine .ofAlgebra ((Scalar.failsOnly_divide _ _).mono ?_)
    intro e he
    obtain ⟨rfl, rfl⟩ := he
    exact .division (.inl rfl) rfl
  · exact .ofShape (Mat.failsOnly_add _ _) fun _ => .shape
  · exact .ofShape (Mat.failsOnly_sub _ _) fun _ => .shape
  · exact .ofShape (Mat.failsOnly_mul _ _) fun _ => .shape
  · exact .ok _
  · exact .ok _
  · refine .ofAlgebra ((Mat.failsOnly_divide _ _).mono ?_)
    intro e he
    obtain ⟨rfl, rfl⟩ := he
    exact .division (.inr rfl) rfl
  · exact .typeMismatch

theorem Value.failsOnly_negate {P : AlgebraError → Prop} (value : Value) :
    FailsOnly (RuntimeCause.Algebraic P) value.negate := by
  cases value with
  | scalar q => exact .ok _
  | matrix A => exact .ok _
  | boolean b => exact .typeMismatch

/-! Functions. -/

namespace Builtin

/-- What a function is refused for. -/
inductive Refuses (values : List Value) : Builtin → AlgebraError → Prop
  | shape {f : Builtin} {mismatch : ShapeError} : Refuses values f (.shape mismatch)
  | singular {A : Mat} : values[0]? = some (.matrix A) → A.rows = A.cols →
      A.grid.toMatrix.rank < A.rows → Refuses values .inverse .singular

section
variable {P : AlgebraError → Prop} {f : Builtin} {values : List Value}

theorem failsOnly_argument (values : List Value) (index : Nat) :
    FailsOnly (RuntimeCause.Algebraic P) (argument values index) := by
  rw [argument]
  split
  · exact .ok _
  · refine .error ?_
    intro e he
    cases he

theorem failsOnly_asMatrix (context : String) (value : Value) :
    FailsOnly (RuntimeCause.Algebraic P) (value.asMatrix context) := by
  cases value with
  | matrix A => exact .ok A
  | scalar q => exact .typeMismatch
  | boolean b => exact .typeMismatch

theorem failsOnly_asScalar (context : String) (value : Value) :
    FailsOnly (RuntimeCause.Algebraic P) (value.asScalar context) := by
  cases value with
  | scalar q => exact .ok q
  | matrix A => exact .typeMismatch
  | boolean b => exact .typeMismatch

theorem failsOnly_matrixArgument (context : String) (values : List Value) (index : Nat) :
    FailsOnly (RuntimeCause.Algebraic P) (matrixArgument context values index) :=
  (failsOnly_argument values index).bind fun value _ => failsOnly_asMatrix context value

theorem failsOnly_asMatrices (context : String) (values : List Value) :
    FailsOnly (RuntimeCause.Algebraic P) (asMatrices context values) := by
  induction values with
  | nil => exact .ok []
  | cons value values ih => exact (failsOnly_asMatrix context value).bind fun A _ => ih.map _

theorem failsOnly_onMatrix {compute : Mat → Except RuntimeCause Value}
    (h : ∀ A, values[0]? = some (.matrix A) → FailsOnly (RuntimeCause.Algebraic P) (compute A)) :
    FailsOnly (RuntimeCause.Algebraic P) (f.onMatrix values compute) :=
  (failsOnly_matrixArgument _ _ _).bind fun A hA => h A (exists_of_matrixArgument hA)

theorem failsOnly_onMatrices {compute : List Mat → Except RuntimeCause Value}
    (h : ∀ As, FailsOnly (RuntimeCause.Algebraic P) (compute As)) :
    FailsOnly (RuntimeCause.Algebraic P) (f.onMatrices values compute) :=
  (failsOnly_asMatrices _ _).bind fun As _ => h As

theorem failsOnly_identityOf (hP : ∀ mismatch, P (.shape mismatch)) (size : Scalar) :
    FailsOnly (RuntimeCause.Algebraic P) (identityOf size) := by
  refine .ite (fun _ => ?_) fun _ => .typeMismatch
  split
  · exact .dite (fun _ => .ok _) fun _ => .algebra (hP _)
  · exact .algebra (hP _)

end

theorem failsOnly_apply (f : Builtin) (values : List Value) :
    FailsOnly (RuntimeCause.Algebraic (f.Refuses values)) (f.apply values) := by
  -- Every function but `inverse` is refused over shapes alone, if at all.
  have hshape : ∀ {α : Type} {make : α → Value} {r : Except AlgebraError α},
      FailsOnly AlgebraError.IsShape r →
      FailsOnly (RuntimeCause.Algebraic (f.Refuses values)) (ofAlgebra make r) :=
    fun h => .ofShape h fun _ => .shape
  cases f with
  | inverse =>
    refine failsOnly_onMatrix fun A hA => .ofAlgebra fun e he => ?_
    obtain ⟨mismatch, rfl⟩ | rfl := A.failsOnly_inverse e he
    · exact .shape
    · obtain ⟨hsquare, hrank⟩ := Mat.rank_lt_of_inverse_eq_singular he
      exact .singular hA hsquare hrank
  | rref => exact failsOnly_onMatrix fun A _ => hshape ((A.failsOnly_eliminate .reduced).map _)
  | ef => exact failsOnly_onMatrix fun A _ => hshape ((A.failsOnly_eliminate .echelon).map _)
  | determinant => exact failsOnly_onMatrix fun A _ => hshape A.failsOnly_determinant
  | rank => exact failsOnly_onMatrix fun A _ => hshape A.failsOnly_rank
  | nullity => exact failsOnly_onMatrix fun A _ => hshape (A.failsOnly_rank.map _)
  | columnSpace =>
    exact failsOnly_onMatrix fun A _ => hshape ((A.failsOnly_eliminate .reduced).map _)
  | rowSpace => exact failsOnly_onMatrix fun A _ => hshape ((A.failsOnly_eliminate .reduced).map _)
  | transpose => exact failsOnly_onMatrix fun A _ => .ok _
  | isConsistent =>
    exact failsOnly_onMatrix fun A _ => hshape ((A.failsOnly_eliminate .echelon).map _)
  | span => exact failsOnly_onMatrices fun As => hshape (Family.failsOnly_span As)
  | dimension => exact failsOnly_onMatrices fun As => hshape (Family.failsOnly_dimension As)
  | isIndependent => exact failsOnly_onMatrices fun As => hshape (Family.failsOnly_isIndependent As)
  | isBasis => exact failsOnly_onMatrices fun As => hshape (Family.failsOnly_isBasis As)
  | augment =>
    refine failsOnly_onMatrices fun As => ?_
    cases As with
    | nil => exact .algebra .shape
    | cons A rest => exact hshape (A.failsOnly_augmentAll rest)
  | spans =>
    refine (failsOnly_matrixArgument _ _ _).bind fun vectors _ => ?_
    refine (failsOnly_matrixArgument _ _ _).bind fun target _ => ?_
    exact hshape (Family.failsOnly_spans vectors target)
  | identity =>
    refine FailsOnly.bind ?_ fun size _ => ?_
    · exact (failsOnly_argument _ _).bind fun value _ => failsOnly_asScalar _ value
    · exact failsOnly_identityOf (fun _ => .shape) size

end Builtin

/-! Expressions. -/

namespace Environment

/-- That the algebra refuses a node, its operands having values. -/
inductive Refuses (env : Environment) : Expr → AlgebraError → Prop
  | binary {op : BinaryOp} {left right : Expr} {line : Nat} {l r : Value} {e : AlgebraError} :
      env.evaluate left = .ok l → env.evaluate right = .ok r → op.Refuses l r e →
      Refuses env (.binary op left right line) e
  | call {f : Builtin} {arguments : List Expr} {line : Nat} {values : List Value}
      {e : AlgebraError} : f.arity.accepts arguments.length = true →
      env.evaluateAll arguments = .ok values → f.Refuses values e →
      Refuses env (.call f arguments line) e
  | rows {entries : List (List Expr)} {line : Nat} {mismatch : ShapeError} :
      Refuses env (.rows entries line) (.shape mismatch)

/-- That a failure, should it come from the algebra, is that of a part on its line. -/
def Traced (env : Environment) (e : Expr) (error : RuntimeError) : Prop :=
  error.cause.Algebraic fun refusal =>
    ∃ part, e.Contains part ∧ part.line = error.line ∧ env.Refuses part refusal

variable {env : Environment} {e : Expr}

theorem Traced.under {child : Expr} {error : RuntimeError} (h : env.Traced child error)
    (hchild : child ∈ e.children) : env.Traced e error := by
  intro refusal hrefusal
  obtain ⟨part, hpart, hline, hrefuses⟩ := h refusal hrefusal
  exact ⟨part, .under hchild hpart, hline, hrefuses⟩

theorem Traced.of_forall_ne {error : RuntimeError}
    (h : ∀ refusal, error.cause ≠ .algebra refusal) : env.Traced e error := by
  intro refusal hrefusal
  exact absurd hrefusal (h refusal)

/-- A node that is refused itself. -/
theorem Traced.self {P : AlgebraError → Prop} {cause : RuntimeCause} (h : cause.Algebraic P)
    (hP : ∀ refusal, P refusal → env.Refuses e refusal) : env.Traced e ⟨cause, e.line⟩ := by
  intro refusal hrefusal
  exact ⟨e, .self, rfl, hP refusal (h refusal hrefusal)⟩

theorem traced_entry {child : Expr} (h : FailsOnly (env.Traced e) (env.evaluate child)) :
    FailsOnly (env.Traced e) (env.entry child) := by
  refine h.bind fun value _ => ?_
  -- An entry that is no scalar is reported on its own line, but not by the algebra.
  exact .onLine (Builtin.failsOnly_asScalar entryContext value) fun _ h => .of_forall_ne h

/-- A refusal comes from one node. -/
theorem traced_evaluate (env : Environment) (e : Expr) :
    FailsOnly (env.Traced e) (env.evaluate e) := by
  induction e using Expr.induction with
  | literal value line => exact .ok value
  | var name line =>
    rw [evaluate]
    split
    · exact .ok _
    · exact .error nofun
  | neg operand line ih =>
    refine (ih.mono fun _ h => h.under List.mem_cons_self).bind fun value _ => ?_
    exact .onLine value.failsOnly_negate fun _ h => .of_forall_ne h
  | binary op left right line ihl ihr =>
    refine (ihl.mono fun _ h => h.under List.mem_cons_self).bind fun l hl => ?_
    refine (ihr.mono fun _ h => h.under (List.mem_cons_of_mem _ List.mem_cons_self)).bind
      fun r hr => ?_
    exact .onLine (op.failsOnly_apply l r) fun _ hcause => .self hcause fun _ h => .binary hl hr h
  | call f arguments line ih =>
    rw [evaluate]
    refine .ite (fun harity => ?_) fun _ => .error nofun
    have harguments : FailsOnly (env.Traced (.call f arguments line)) (env.evaluateAll arguments) :=
      evaluateAll_eq env arguments ▸ .mapM fun child hchild =>
        (ih child hchild).mono fun _ h => h.under hchild
    refine harguments.bind fun values hvalues => ?_
    exact .onLine (f.failsOnly_apply values) fun _ hcause => .self hcause fun _ h =>
      .call harity hvalues h
  | rows entries line ih =>
    have hentries : FailsOnly (env.Traced (.rows entries line)) (env.evaluateRows entries) :=
      evaluateRows_eq env entries ▸ .mapM fun row hrow => .mapM fun child hchild =>
        traced_entry ((ih row hrow child hchild).mono fun _ h =>
          h.under (List.mem_flatten.mpr ⟨row, hrow, hchild⟩))
    refine hentries.bind fun rows _ => ?_
    exact .onLine (.ofShape (Mat.failsOnly_ofRows rows) fun _ => .rows) fun _ hcause =>
      .self hcause fun _ h => h

/-- Where the algebra refuses something other than a shape. An expression fails over a division by
zero at a quotient that divides a scalar or a matrix by the scalar zero, and over a singular
matrix at a call of `inverse` for a square matrix of smaller rank. Elimination never fails, and
no function of matrices fails over a division by zero. -/
theorem refusal_sources (env : Environment) (e : Expr) :
    (∀ line, env.evaluate e = .error ⟨.algebra .divisionByZero, line⟩ →
      ∃ left right l, e.Contains (.binary .div left right line) ∧
        env.evaluate left = .ok l ∧ (l.kind = .scalar ∨ l.kind = .matrix) ∧
        env.evaluate right = .ok (.scalar 0)) ∧
    (∀ line, env.evaluate e = .error ⟨.algebra .singular, line⟩ →
      ∃ argument A r, e.Contains (.call .inverse [argument] line) ∧
        env.evaluate argument = .ok (.matrix A) ∧ A.rows = A.cols ∧
        A.rank = .ok r ∧ r < A.rows) ∧
    (∀ (A : Mat) (mode : Mode), ∃ E, A.eliminate mode = .ok E) ∧
    ∀ (f : Builtin) (values : List Value), f.apply values ≠ .error (.algebra .divisionByZero) := by
  refine ⟨?_, ?_, ?_, ?_⟩
  · intro line herror
    obtain ⟨part, hpart, rfl, hrefuses⟩ := env.traced_evaluate e _ herror _ rfl
    cases hrefuses with
    | binary hl hr h =>
      cases h with
      | division hkind hzero =>
        subst hzero
        exact ⟨_, _, _, hpart, hl, hkind, hr⟩
    | call _ _ h => cases h
  · intro line herror
    obtain ⟨part, hpart, rfl, hrefuses⟩ := env.traced_evaluate e _ herror _ rfl
    cases hrefuses with
    | binary _ _ h => cases h
    | call harity hvalues h =>
      cases h with
      | singular hA hsquare hrank =>
        obtain ⟨argument, rfl⟩ := List.length_eq_one_iff.mp (beq_iff_eq.mp harity)
        simp only [evaluateAll, bind_eq_ok_iff, map_eq_ok_iff] at hvalues
        obtain ⟨value, hvalue, _, _, rfl⟩ := hvalues
        obtain rfl := Option.some.inj hA
        exact ⟨argument, _, _, hpart, hvalue, hsquare, Mat.rank_eq _, hrank⟩
  · intro A mode
    obtain ⟨E, hE⟩ := Elimination.exists_eliminates A.grid mode
    exact ⟨E, hE.eliminate_eq⟩
  · intro f values h
    cases f.failsOnly_apply values _ h _ rfl

/-- `rank([[1]] / 0)`, with the quotient on a line of its own. -/
def quotientByZero : Expr :=
  .call .rank
    [.binary .div (.rows [[.literal (.scalar 1) 1]] 1) (.literal (.scalar 0) 2) 2] 1

/-- `inverse([[0]])`. -/
def inverseOfZero : Expr := .call .inverse [.rows [[.literal (.scalar 0) 1]] 1] 1

/-- Each is refused at the node that asks for what there is not. -/
theorem refusal_sources_zero :
    empty.evaluate quotientByZero = .error ⟨.algebra .divisionByZero, 2⟩ ∧
    empty.evaluate inverseOfZero = .error ⟨.algebra .singular, 1⟩ ∧
    (∃ left right l, quotientByZero.Contains (.binary .div left right 2) ∧
      empty.evaluate left = .ok l ∧ (l.kind = .scalar ∨ l.kind = .matrix) ∧
      empty.evaluate right = .ok (.scalar 0)) ∧
    ∃ argument A r, inverseOfZero.Contains (.call .inverse [argument] 1) ∧
      empty.evaluate argument = .ok (.matrix A) ∧ A.rows = A.cols ∧
      A.rank = .ok r ∧ r < A.rows := by
  have hquotient : empty.evaluate quotientByZero = .error ⟨.algebra .divisionByZero, 2⟩ := by
    decide +kernel
  have hinverse : empty.evaluate inverseOfZero = .error ⟨.algebra .singular, 1⟩ := by
    decide +kernel
  exact ⟨hquotient, hinverse, (refusal_sources empty quotientByZero).1 2 hquotient,
    (refusal_sources empty inverseOfZero).2.1 1 hinverse⟩

end Environment

end ExactLinear
