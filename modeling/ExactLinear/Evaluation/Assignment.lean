import ExactLinear.Evaluation.Step
import ExactLinear.Syntax.Variable

/- What a statement reads, and the assignments that a run of it makes. A run that fails
   has made the ones in front of the failure. -/
namespace ExactLinear

def Step.expr : Step → Expr
  | .assign _ e | .evaluate e => e

/-- The names of the variables in a statement, those in its blocks included. -/
def Statement.reads (s : Statement) : List String :=
  s.steps.flatMap fun step => step.expr.reads

namespace Environment

mutual

/-- The names and values that a run of a statement binds, in order. -/
def assignments (env : Environment) : Statement → List (String × Value)
  | .assign name e _ =>
    match env.evaluate e with
    | .ok value => [(name, value)]
    | .error _ => []
  | .evaluate _ _ => []
  | .block body _ => env.assignmentsOfAll body

def assignmentsOfAll (env : Environment) : List Statement → List (String × Value)
  | [] => []
  | s :: rest =>
    env.assignments s ++
      match env.execute s with
      | (after, .ok _) => after.assignmentsOfAll rest
      | (_, .error _) => []

end

/-- The environment with names bound to values, one after the other. -/
def setAll (env : Environment) (written : List (String × Value)) : Environment :=
  written.foldl (fun env w => env.set w.1 w.2) env

section
variable (env : Environment)

@[simp] theorem setAll_nil : env.setAll [] = env := rfl

@[simp] theorem setAll_cons (w : String × Value) (written : List (String × Value)) :
    env.setAll (w :: written) = (env.set w.1 w.2).setAll written := rfl

@[simp] theorem setAll_append (written written' : List (String × Value)) :
    env.setAll (written ++ written') = (env.setAll written).setAll written' := List.foldl_append

end

/-- A name that is not bound again keeps its value. -/
theorem get?_setAll_of_not_mem {written : List (String × Value)} {name : String}
    (h : ∀ w ∈ written, w.1 ≠ name) (env : Environment) :
    (env.setAll written).get? name = env.get? name := by
  induction written generalizing env with
  | nil => rfl
  | cons w written ih =>
    obtain ⟨hw, hwritten⟩ := List.forall_mem_cons.mp h
    rw [setAll_cons, ih hwritten, get?_set, if_neg hw]

/-- Environments with the same value for a name still have the same one for it when the same names
have been bound in both. -/
theorem get?_setAll_congr {env env' : Environment} {name : String}
    (h : env.get? name = env'.get? name) (written : List (String × Value)) :
    (env.setAll written).get? name = (env'.setAll written).get? name := by
  induction written generalizing env env' with
  | nil => exact h
  | cons w written ih =>
    refine ih ?_
    rw [get?_set, get?_set, h]

end Environment

end ExactLinear
