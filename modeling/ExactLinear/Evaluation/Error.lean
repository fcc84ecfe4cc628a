import ExactLinear.AlgebraError
import ExactLinear.Syntax.Tree

/- Why a program fails when it is run. The cause is found by an operation on
   values; the line is added by the node of the syntax tree that asked for it. -/
namespace ExactLinear

/-- A value of a kind that an operation has no use for. -/
inductive TypeMismatch where
  | matrixExpected (context : String) (found : Kind)
  | scalarExpectedNotMatrix (context : String) (found : Shape)
  | scalarExpectedNotBoolean (context : String)
  | operands (op : BinaryOp) (left right : Kind)
  | negatedBoolean
  | sizeNotInteger (found : Scalar)
  deriving DecidableEq, Repr

def TypeMismatch.text : TypeMismatch → String
  | .matrixExpected context found => context ++ " expects a matrix, found a " ++ found.text
  | .scalarExpectedNotMatrix context found =>
    context ++ " expects a scalar, found a " ++ found.text ++ " matrix"
  | .scalarExpectedNotBoolean context => context ++ " expects a scalar, found a boolean"
  | .operands op left right =>
    "cannot apply '" ++ op.text ++ "' to a " ++ left.text ++ " and a " ++ right.text
  | .negatedBoolean => "cannot apply '-' to a boolean"
  | .sizeNotInteger found => "identity expects an integer size, found " ++ Scalar.text found

inductive RuntimeCause where
  | undefinedVariable (name : String)
  | typeMismatch (mismatch : TypeMismatch)
  | algebra (e : AlgebraError)
  /-- A call with a number of arguments that the function does not take. -/
  | arity (function : Builtin) (found : Nat)
  /-- A function asked for an argument that it was not given. A call checks the number of its
  arguments first, so this arises only where that check is left out. -/
  | missingArgument (index : Nat)
  deriving DecidableEq, Repr

def RuntimeCause.text : RuntimeCause → String
  | .undefinedVariable name => "Undefined variable '" ++ name ++ "'."
  | .typeMismatch mismatch => "Type mismatch: " ++ mismatch.text ++ "."
  | .algebra e => e.message
  | .arity f found =>
    f.name ++ " expects " ++ f.arity.text ++ " argument(s), but found " ++ Nat.repr found ++ "."
  | .missingArgument index => "Missing argument " ++ Nat.repr (index + 1) ++ "."

structure RuntimeError where
  cause : RuntimeCause
  line : Nat
  deriving DecidableEq, Repr

def RuntimeError.message (e : RuntimeError) : String :=
  "Error on line " ++ Nat.repr e.line ++ ": " ++ e.cause.text

/-- The outcome of an operation on values, its failure placed on a line. -/
def onLine {α : Type} (line : Nat) : Except RuntimeCause α → Except RuntimeError α
  | .ok value => .ok value
  | .error cause => .error ⟨cause, line⟩

/-- The outcome of an operation on scalars or matrices, as one on values. -/
def ofAlgebra {α : Type} (make : α → Value) : Except AlgebraError α → Except RuntimeCause Value
  | .ok result => .ok (make result)
  | .error e => .error (.algebra e)

end ExactLinear
