import ExactLinear.Mat.Text

/- The values of the language: scalars, matrices and answers to yes-or-no
   questions. -/
namespace ExactLinear

/-- What sort of value something is. -/
inductive Kind where
  | scalar
  | matrix
  | boolean
  deriving DecidableEq, Repr

def Kind.text : Kind → String
  | .scalar => "scalar"
  | .matrix => "matrix"
  | .boolean => "boolean"

inductive Value where
  | scalar (q : Scalar)
  | matrix (A : Mat)
  | boolean (b : Bool)
  deriving DecidableEq

namespace Value

def kind : Value → Kind
  | .scalar _ => .scalar
  | .matrix _ => .matrix
  | .boolean _ => .boolean

def text : Value → String
  | .scalar q => Scalar.text q
  | .matrix A => A.text
  | .boolean true => "YES"
  | .boolean false => "NO"

/-- A count as a scalar. -/
def ofCount (n : Nat) : Value := .scalar (Scalar.ofCount n)

end Value

end ExactLinear
