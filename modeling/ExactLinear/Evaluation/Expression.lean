import ExactLinear.Evaluation.Builtin
import ExactLinear.Evaluation.Environment

/- Evaluation of expressions and execution of statements. Operands, arguments and
   entries are evaluated from left to right, and the first failure is the
   outcome. The number of arguments of a call is checked before any of them is
   evaluated. -/
namespace ExactLinear

/-- The context in which an entry of a written matrix has to be a scalar. -/
def entryContext : String := "a matrix entry"

namespace Environment

mutual

/-- The value of an expression. -/
def evaluate (env : Environment) : Expr → Except RuntimeError Value
  | .literal value _ => .ok value
  | .var name line =>
    match env.get? name with
    | some value => .ok value
    | none => .error ⟨.undefinedVariable name, line⟩
  | .neg operand line => (env.evaluate operand).bind fun value => onLine line value.negate
  | .binary op left right line =>
    (env.evaluate left).bind fun l =>
      (env.evaluate right).bind fun r => onLine line (op.apply l r)
  | .call f arguments line =>
    if f.arity.accepts arguments.length then
      (env.evaluateAll arguments).bind fun values => onLine line (f.apply values)
    else .error ⟨.arity f arguments.length, line⟩
  | .rows entries line =>
    (env.evaluateRows entries).bind fun values =>
      onLine line (ofAlgebra .matrix (Mat.ofRows values))

/-- The values of the arguments of a call. -/
def evaluateAll (env : Environment) : List Expr → Except RuntimeError (List Value)
  | [] => .ok []
  | e :: rest =>
    (env.evaluate e).bind fun value => (env.evaluateAll rest).map fun values => value :: values

/-- The scalars in a row of a written matrix. -/
def evaluateRow (env : Environment) : List Expr → Except RuntimeError (List Scalar)
  | [] => .ok []
  | e :: rest =>
    (env.evaluate e).bind fun value =>
      (onLine e.line (value.asScalar entryContext)).bind fun q =>
        (env.evaluateRow rest).map fun qs => q :: qs

/-- The scalars in all rows of a written matrix. -/
def evaluateRows (env : Environment) : List (List Expr) → Except RuntimeError (List (List Scalar))
  | [] => .ok []
  | row :: rest =>
    (env.evaluateRow row).bind fun qs => (env.evaluateRows rest).map fun rows => qs :: rows

end

end Environment

/-- What running statements leaves behind: the bindings made, also those before a failure, and
the value of the last statement that had one. -/
abbrev Outcome (ε : Type) := Environment × Except ε (Option Value)

namespace Environment

mutual

/-- Runs a statement. A failed assignment binds nothing. -/
def execute (env : Environment) : Statement → Outcome RuntimeError
  | .assign name e _ =>
    match env.evaluate e with
    | .ok value => (env.set name value, .ok none)
    | .error error => (env, .error error)
  | .evaluate e _ => (env, (env.evaluate e).map some)
  | .block body _ => env.executeAll none body

/-- Runs statements in order up to the first failure; `last` is the value so far. -/
def executeAll (env : Environment) (last : Option Value) : List Statement → Outcome RuntimeError
  | [] => (env, .ok last)
  | s :: rest =>
    match env.execute s with
    | (after, .ok value) => after.executeAll (value.or last) rest
    | (after, .error error) => (after, .error error)

end

end Environment

end ExactLinear
