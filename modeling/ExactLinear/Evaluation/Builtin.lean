import ExactLinear.Evaluation.Operator
import ExactLinear.Family

/- What the builtin functions compute. A function reads the arguments it needs in
   order and ignores any others; the number of arguments is checked by the call,
   not here. -/
namespace ExactLinear

/-- The argument with the given number, counted from zero. -/
def argument (arguments : List Value) (index : Nat) : Except RuntimeCause Value :=
  match arguments[index]? with
  | some value => .ok value
  | none => .error (.missingArgument index)

/-- An argument that has to be a matrix. -/
def matrixArgument (context : String) (arguments : List Value) (index : Nat) :
    Except RuntimeCause Mat :=
  (argument arguments index).bind fun value => value.asMatrix context

/-- All values as matrices, or the first failure. -/
def asMatrices (context : String) : List Value → Except RuntimeCause (List Mat)
  | [] => .ok []
  | value :: rest =>
    (value.asMatrix context).bind fun A => (asMatrices context rest).map fun As => A :: As

namespace Builtin

/-- The largest size of an identity matrix that a program may ask for. -/
def largestIdentity : Nat := 1000

/-- The identity matrix of the size that a scalar is. -/
def identityOf (size : Scalar) : Except RuntimeCause Value :=
  if size.den = 1 then
    match Scalar.toCount? size with
    | some n =>
      if h : 1 ≤ n ∧ n ≤ largestIdentity then .ok (.matrix (Mat.identity n h.1))
      else .error (.algebra (.shape (.identitySize largestIdentity size)))
    | none => .error (.algebra (.shape (.identitySize largestIdentity size)))
  else .error (.typeMismatch (.sizeNotInteger size))

/-- A function of the first argument, which has to be a matrix. -/
def onMatrix (f : Builtin) (arguments : List Value) (compute : Mat → Except RuntimeCause Value) :
    Except RuntimeCause Value :=
  (matrixArgument f.name arguments 0).bind compute

/-- A function of all arguments, which have to be matrices. -/
def onMatrices (f : Builtin) (arguments : List Value)
    (compute : List Mat → Except RuntimeCause Value) : Except RuntimeCause Value :=
  (asMatrices f.name arguments).bind compute

/-- The value of a builtin function at a list of arguments. -/
def apply (f : Builtin) (arguments : List Value) : Except RuntimeCause Value :=
  match f with
  | .inverse => f.onMatrix arguments fun A => ofAlgebra .matrix A.inverse
  | .rref => f.onMatrix arguments fun A => ofAlgebra .matrix A.reduced
  | .ef => f.onMatrix arguments fun A => ofAlgebra .matrix A.echelon
  | .determinant => f.onMatrix arguments fun A => ofAlgebra .scalar A.determinant
  | .rank => f.onMatrix arguments fun A => ofAlgebra .ofCount A.rank
  | .nullity => f.onMatrix arguments fun A => ofAlgebra .ofCount A.nullity
  | .columnSpace => f.onMatrix arguments fun A => ofAlgebra .matrix A.columnSpace
  | .rowSpace => f.onMatrix arguments fun A => ofAlgebra .matrix A.rowSpace
  | .transpose => f.onMatrix arguments fun A => .ok (.matrix A.transpose)
  | .isConsistent => f.onMatrix arguments fun A => ofAlgebra .boolean A.isConsistent
  | .span => f.onMatrices arguments fun As => ofAlgebra .matrix (Family.span As)
  | .dimension => f.onMatrices arguments fun As => ofAlgebra .ofCount (Family.dimension As)
  | .isIndependent => f.onMatrices arguments fun As => ofAlgebra .boolean (Family.isIndependent As)
  | .isBasis => f.onMatrices arguments fun As => ofAlgebra .boolean (Family.isBasis As)
  | .augment => f.onMatrices arguments fun
    | [] => .error (.algebra (.shape .noMatrices))
    | A :: rest => ofAlgebra .matrix (A.augmentAll rest)
  | .spans =>
    (matrixArgument f.name arguments 0).bind fun vectors =>
      (matrixArgument f.name arguments 1).bind fun target =>
        ofAlgebra .boolean (Family.spans vectors target)
  | .identity =>
    ((argument arguments 0).bind fun size => size.asScalar f.name).bind identityOf

end Builtin

end ExactLinear
