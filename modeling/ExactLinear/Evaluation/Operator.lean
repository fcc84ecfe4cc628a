import ExactLinear.Evaluation.Error
import ExactLinear.Mat.Arithmetic

/- What the operators do to values, and the use of a value as a matrix or as a
   scalar. -/
namespace ExactLinear

namespace Value

/-- The matrix that a value is. -/
def asMatrix (context : String) : Value → Except RuntimeCause Mat
  | .matrix A => .ok A
  | other => .error (.typeMismatch (.matrixExpected context other.kind))

/-- The scalar that a value is. -/
def asScalar (context : String) : Value → Except RuntimeCause Scalar
  | .scalar q => .ok q
  | .matrix A => .error (.typeMismatch (.scalarExpectedNotMatrix context A.shape))
  | .boolean _ => .error (.typeMismatch (.scalarExpectedNotBoolean context))

def negate : Value → Except RuntimeCause Value
  | .scalar q => .ok (.scalar (-q))
  | .matrix A => .ok (.matrix A.neg)
  | .boolean _ => .error (.typeMismatch .negatedBoolean)

end Value

/-- An operator between two values. Sums need two scalars or two matrices; products any two of
these; a quotient has a scalar below. -/
def BinaryOp.apply : BinaryOp → Value → Value → Except RuntimeCause Value
  | .add, .scalar a, .scalar b => .ok (.scalar (a + b))
  | .sub, .scalar a, .scalar b => .ok (.scalar (a - b))
  | .mul, .scalar a, .scalar b => .ok (.scalar (a * b))
  | .div, .scalar a, .scalar b => ofAlgebra .scalar (Scalar.divide a b)
  | .add, .matrix A, .matrix B => ofAlgebra .matrix (A.add B)
  | .sub, .matrix A, .matrix B => ofAlgebra .matrix (A.sub B)
  | .mul, .matrix A, .matrix B => ofAlgebra .matrix (A.mul B)
  | .mul, .scalar q, .matrix A => .ok (.matrix (A.scale q))
  | .mul, .matrix A, .scalar q => .ok (.matrix (A.scale q))
  | .div, .matrix A, .scalar q => ofAlgebra .matrix (A.divide q)
  | op, left, right => .error (.typeMismatch (.operands op left.kind right.kind))

end ExactLinear
