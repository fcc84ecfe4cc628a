import ExactLinear.Proofs.Evaluation.Member
import ExactLinear.Syntax.Substitution

/- Substitution against binding. An expression put in for a variable is evaluated as
   often as the variable occurs, and each time it has the value that the variable
   would have been bound to. Only lines can tell the difference: an entry of a
   written matrix is reported on the line of what stands there. -/
namespace ExactLinear

/-- That two evaluations have the same value, or fail for the same cause on lines that may
differ. -/
inductive Alike {α : Type} : Except RuntimeError α → Except RuntimeError α → Prop
  | ok (a : α) : Alike (.ok a) (.ok a)
  | error (cause : RuntimeCause) (line line' : Nat) :
      Alike (.error ⟨cause, line⟩) (.error ⟨cause, line'⟩)

namespace Alike
variable {α β : Type}

theorem refl : (r : Except RuntimeError α) → Alike r r
  | .ok a => .ok a
  | .error e => .error e.cause e.line e.line

theorem bind {r r' : Except RuntimeError α} {f f' : α → Except RuntimeError β}
    (hr : Alike r r') (hf : ∀ a, Alike (f a) (f' a)) : Alike (r.bind f) (r'.bind f') := by
  cases hr with
  | ok a => exact hf a
  | error cause line line' => exact .error cause line line'

theorem onLine (line line' : Nat) (r : Except RuntimeCause α) :
    Alike (onLine line r) (onLine line' r) := by
  cases r with
  | ok a => exact .ok a
  | error cause => exact .error cause line line'

theorem mapM {f f' : α → Except RuntimeError β} {xs : List α}
    (h : ∀ x ∈ xs, Alike (f x) (f' x)) : Alike (xs.mapM f) (xs.mapM f') := by
  induction xs with
  | nil => exact .ok []
  | cons x xs ih =>
    obtain ⟨hx, hxs⟩ := List.forall_mem_cons.mp h
    rw [List.mapM_cons, List.mapM_cons]
    exact hx.bind fun y => (ih hxs).bind fun ys => .ok (y :: ys)

end Alike

namespace Environment
variable {env : Environment} {name : String} {e : Expr} {v : Value}

theorem alike_evaluate_var (he : env.evaluate e = .ok v) (other : String) (line : Nat) :
    Alike (env.evaluate ((Expr.var other line).substitute name e))
      ((env.set name v).evaluate (.var other line)) := by
  by_cases hother : other = name
  · subst hother
    rw [Expr.substitute_var_self, he, evaluate, get?_set, if_pos rfl]
    exact .ok v
  · rw [Expr.substitute_var_of_ne name e line hother, evaluate, evaluate, get?_set,
      if_neg (Ne.symm hother)]
    exact .refl _

/-- With an expression put in for a variable, an expression has the value that it has with the
variable bound to the value of the former, or it fails for the same cause. -/
theorem evaluate_substitute (he : env.evaluate e = .ok v) (t : Expr) :
    Alike (env.evaluate (t.substitute name e)) ((env.set name v).evaluate t) := by
  induction t using Expr.induction with
  | literal value line => exact .ok value
  | var other line => exact alike_evaluate_var he other line
  | neg operand line ih =>
    rw [Expr.substitute_neg, evaluate, evaluate]
    exact ih.bind fun value => .onLine line line _
  | binary op left right line ihl ihr =>
    rw [Expr.substitute_binary, evaluate, evaluate]
    exact ihl.bind fun l => ihr.bind fun r => .onLine line line _
  | call function arguments line ih =>
    -- The number of arguments is the same, so both calls get past its check or neither does.
    rw [Expr.substitute_call, evaluate, evaluate, List.length_map]
    split
    · rw [evaluateAll_eq, evaluateAll_eq, List.mapM_map]
      exact (Alike.mapM ih).bind fun values => .onLine line line _
    · exact .error _ line line
  | rows entries line ih =>
    have hentry : ∀ row ∈ entries, ∀ t ∈ row,
        Alike (env.entry (t.substitute name e)) ((env.set name v).entry t) :=
      fun row hrow t ht => (ih row hrow t ht).bind fun value => .onLine _ _ _
    rw [Expr.substitute_rows, evaluate, evaluate, evaluateRows_eq, evaluateRows_eq, List.mapM_map]
    refine Alike.bind (.mapM fun row hrow => ?_) fun rows => .onLine line line _
    rw [Function.comp, List.mapM_map]
    exact .mapM (hentry row hrow)

/-- A matrix with the old `x` in it, put in for an `x` in an entry: what is put in is refused on
line 9, and the variable on line 3. -/
theorem evaluate_substitute_entry :
    (empty.set "x" (.scalar 1)).evaluate (.rows [[.var "x" 9]] 9) =
      .ok (.matrix (Mat.identity 1 Nat.one_pos)) ∧
    Alike
      ((empty.set "x" (.scalar 1)).evaluate
        ((Expr.rows [[.var "x" 3, .var "y" 3]] 3).substitute "x" (.rows [[.var "x" 9]] 9)))
      (((empty.set "x" (.scalar 1)).set "x" (.matrix (Mat.identity 1 Nat.one_pos))).evaluate
        (.rows [[.var "x" 3, .var "y" 3]] 3)) := by
  have he : (empty.set "x" (.scalar 1)).evaluate (.rows [[.var "x" 9]] 9) =
      .ok (.matrix (Mat.identity 1 Nat.one_pos)) := rfl
  exact ⟨he, evaluate_substitute he _⟩

end Environment

end ExactLinear
