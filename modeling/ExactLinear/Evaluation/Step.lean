import ExactLinear.Evaluation.Expression

/- The steps of a program: its assignments and its expressions in the order in which
   they are written, also those in blocks, however deeply the blocks are nested.
   A step is performed as a whole or not at all. -/
namespace ExactLinear

inductive Step where
  | assign (name : String) (value : Expr)
  | evaluate (expr : Expr)

namespace Step

/-- The name that a step binds. -/
def target? : Step → Option String
  | .assign name _ => some name
  | .evaluate _ => none

/-- The names that steps bind. -/
def targets (steps : List Step) : List String := steps.filterMap target?

theorem mem_targets {steps : List Step} {name : String} :
    name ∈ targets steps ↔ ∃ step ∈ steps, step.target? = some name := List.mem_filterMap

@[simp] theorem targets_flatMap {α : Type} (xs : List α) (f : α → List Step) :
    targets (xs.flatMap f) = xs.flatMap fun x => targets (f x) := List.filterMap_flatMap ..

end Step

namespace Statement

mutual

/-- The steps that a statement consists of. -/
def steps : Statement → List Step
  | .assign name value _ => [.assign name value]
  | .evaluate expr _ => [.evaluate expr]
  | .block body _ => allSteps body

/-- The steps of statements one after the other. -/
def allSteps : List Statement → List Step
  | [] => []
  | s :: rest => s.steps ++ allSteps rest

end

theorem allSteps_eq (ss : List Statement) : allSteps ss = ss.flatMap steps := by
  induction ss with
  | nil => rfl
  | cons s ss ih => rw [allSteps, ih, List.flatMap_cons]

@[simp] theorem steps_assign (name : String) (value : Expr) (line : Nat) :
    (assign name value line).steps = [.assign name value] := rfl

@[simp] theorem steps_evaluate (expr : Expr) (line : Nat) :
    (evaluate expr line).steps = [.evaluate expr] := rfl

@[simp] theorem steps_block (body : List Statement) (line : Nat) :
    (block body line).steps = body.flatMap steps := by
  rw [steps, allSteps_eq]

end Statement

namespace Environment

/-- The environment after a step, and the value of the step if it is an expression. -/
def perform (env : Environment) : Step → Except RuntimeError (Environment × Option Value)
  | .assign name e => (env.evaluate e).map fun value => (env.set name value, none)
  | .evaluate e => (env.evaluate e).map fun value => (env, some value)

/-- That all steps can be performed one after the other, with the values of the expressions among
them and the environment that they leave. -/
inductive Performs : Environment → List Step → List Value → Environment → Prop
  | nil {env : Environment} : Performs env [] [] env
  | cons {env middle after : Environment} {step : Step} {value : Option Value}
      {rest : List Step} {values : List Value} :
      env.perform step = .ok (middle, value) → Performs middle rest values after →
      Performs env (step :: rest) (value.toList ++ values) after

end Environment

end ExactLinear
