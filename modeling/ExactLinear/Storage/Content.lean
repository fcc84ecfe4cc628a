import ExactLinear.Evaluation.Builtin
import ExactLinear.Storage.Space

/- Values as they are stored, and what operators and functions do to them. A function
   takes its arguments out of a list by number, whatever the length of the list. -/
namespace ExactLinear.Storage

inductive Content where
  | scalar (q : Scalar)
  | table (T : Table)
  | boolean (b : Bool)
  deriving DecidableEq

namespace Content

/-- A value as it is stored. -/
def ofValue : Value → Content
  | .scalar q => .scalar q
  | .matrix A => .table (.ofMat A)
  | .boolean b => .boolean b

def kind : Content → Kind
  | .scalar _ => .scalar
  | .table _ => .matrix
  | .boolean _ => .boolean

def ofCount (n : Nat) : Content := .scalar (Scalar.ofCount n)

def asTable (context : String) : Content → Checked RuntimeCause Table
  | .table T => .ok T
  | other => .error (.refusal (.typeMismatch (.matrixExpected context other.kind)))

def asScalar (context : String) : Content → Checked RuntimeCause Scalar
  | .scalar q => .ok q
  | .table T => .error (.refusal (.typeMismatch (.scalarExpectedNotMatrix context T.shape)))
  | .boolean _ => .error (.refusal (.typeMismatch (.scalarExpectedNotBoolean context)))

/-- The outcome of an operation on scalars or tables, as one on contents. -/
def ofAlgebra {α : Type} (make : α → Content) (r : Checked AlgebraError α) :
    Checked RuntimeCause Content :=
  (retold .algebra r).map make

/-! Operators. -/

def negate : Content → Checked RuntimeCause Content
  | .scalar q => .ok (.scalar (-q))
  | .table T => T.neg.map .table
  | .boolean _ => .error (.refusal (.typeMismatch .negatedBoolean))

def combine : BinaryOp → Content → Content → Checked RuntimeCause Content
  | .add, .scalar a, .scalar b => .ok (.scalar (a + b))
  | .sub, .scalar a, .scalar b => .ok (.scalar (a - b))
  | .mul, .scalar a, .scalar b => .ok (.scalar (a * b))
  | .div, .scalar a, .scalar b => ofAlgebra .scalar (attempt (Scalar.divide a b))
  | .add, .table T, .table U => ofAlgebra .table (T.add U)
  | .sub, .table T, .table U => ofAlgebra .table (T.sub U)
  | .mul, .table T, .table U => ofAlgebra .table (T.mul U)
  | .mul, .scalar q, .table T => (T.scale q).map .table
  | .mul, .table T, .scalar q => (T.scale q).map .table
  | .div, .table T, .scalar q => ofAlgebra .table (T.divide q)
  | op, left, right => .error (.refusal (.typeMismatch (.operands op left.kind right.kind)))

/-! Functions. -/

def identityOf (size : Scalar) : Checked RuntimeCause Content :=
  if size.den = 1 then
    match Scalar.toCount? size with
    | some n =>
      if 1 ≤ n ∧ n ≤ Builtin.largestIdentity then ofAlgebra .table (Table.identity n)
      else .error (.refusal (.algebra (.shape (.identitySize Builtin.largestIdentity size))))
    | none =>
      .error (.refusal (.algebra (.shape (.identitySize Builtin.largestIdentity size))))
  else .error (.refusal (.typeMismatch (.sizeNotInteger size)))

/-- A function of the first argument, which has to be a matrix. -/
def onTable (f : Builtin) (arguments : List Content)
    (compute : Table → Checked RuntimeCause Content) : Checked RuntimeCause Content := do
  let first ← item arguments 0
  let T ← first.asTable f.name
  compute T

/-- A function of all arguments, which have to be matrices. -/
def onTables (f : Builtin) (arguments : List Content)
    (compute : List Table → Checked RuntimeCause Content) : Checked RuntimeCause Content := do
  let tables ← arguments.mapM (asTable f.name)
  compute tables

/-- The value of a builtin function at a list of arguments of any length. -/
def call (f : Builtin) (arguments : List Content) : Checked RuntimeCause Content :=
  match f with
  | .inverse => onTable f arguments fun T => ofAlgebra .table T.inverse
  | .rref => onTable f arguments fun T => ofAlgebra .table T.reduced
  | .ef => onTable f arguments fun T => ofAlgebra .table T.echelon
  | .determinant => onTable f arguments fun T => ofAlgebra .scalar T.determinant
  | .rank => onTable f arguments fun T => ofAlgebra ofCount T.rank
  | .nullity => onTable f arguments fun T => ofAlgebra ofCount T.nullity
  | .columnSpace => onTable f arguments fun T => ofAlgebra .table T.columnSpace
  | .rowSpace => onTable f arguments fun T => ofAlgebra .table T.rowSpace
  | .transpose => onTable f arguments fun T => T.transpose.map .table
  | .isConsistent => onTable f arguments fun T => ofAlgebra .boolean T.isConsistent
  | .span => onTables f arguments fun Ts => ofAlgebra .table (Table.span Ts)
  | .dimension => onTables f arguments fun Ts => ofAlgebra ofCount (Table.dimension Ts)
  | .isIndependent => onTables f arguments fun Ts => ofAlgebra .boolean (Table.isIndependent Ts)
  | .isBasis => onTables f arguments fun Ts => ofAlgebra .boolean (Table.isBasis Ts)
  | .augment => onTables f arguments fun
    | [] => .error (.refusal (.algebra (.shape .noMatrices)))
    | T :: rest => ofAlgebra .table (T.augmentAll rest)
  | .spans => do
    let first ← item arguments 0
    let vectors ← first.asTable f.name
    let second ← item arguments 1
    let target ← second.asTable f.name
    ofAlgebra .boolean (Table.spans vectors target)
  | .identity => do
    let first ← item arguments 0
    let size ← first.asScalar f.name
    identityOf size

end Content

end ExactLinear.Storage
