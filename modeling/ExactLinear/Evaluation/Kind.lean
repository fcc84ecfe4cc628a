import ExactLinear.Evaluation.Environment
import ExactLinear.Syntax.Tree

/- Kinds of expressions. The rules say which kind of value an expression is for, given
   the kinds of the variables, without evaluating anything: they look at no number
   and no shape. -/
namespace ExactLinear

/-- The kinds of the two operands that an operator takes, and the kind of its result. -/
inductive BinaryOp.Combines : BinaryOp → Kind → Kind → Kind → Prop
  | scalars {op : BinaryOp} : Combines op .scalar .scalar .scalar
  | sum : Combines .add .matrix .matrix .matrix
  | difference : Combines .sub .matrix .matrix .matrix
  | product : Combines .mul .matrix .matrix .matrix
  | scalarTimes : Combines .mul .scalar .matrix .matrix
  | timesScalar : Combines .mul .matrix .scalar .matrix
  | overScalar : Combines .div .matrix .scalar .matrix

namespace Builtin

/-- The kind of all arguments of a function. -/
def argumentKind : Builtin → Kind
  | .identity => .scalar
  | _ => .matrix

/-- The kind of what a function gives. -/
def resultKind : Builtin → Kind
  | .inverse | .rref | .ef | .span | .columnSpace | .rowSpace | .transpose | .augment
  | .identity => .matrix
  | .determinant | .rank | .nullity | .dimension => .scalar
  | .isConsistent | .isIndependent | .isBasis | .spans => .boolean

end Builtin

/-- The kind of an expression, from the kinds that the variables have. An expression without a
kind is one that is put together wrongly. -/
inductive Expr.HasKind (kinds : String → Option Kind) : Expr → Kind → Prop
  | literal {value : Value} {line : Nat} : HasKind kinds (.literal value line) value.kind
  | var {name : String} {line : Nat} {k : Kind} : kinds name = some k →
      HasKind kinds (.var name line) k
  | neg {operand : Expr} {line : Nat} {k : Kind} : HasKind kinds operand k → k ≠ .boolean →
      HasKind kinds (.neg operand line) k
  | binary {op : BinaryOp} {left right : Expr} {line : Nat} {l r k : Kind} :
      HasKind kinds left l → HasKind kinds right r → op.Combines l r k →
      HasKind kinds (.binary op left right line) k
  | call {f : Builtin} {arguments : List Expr} {line : Nat} :
      f.arity.accepts arguments.length = true →
      (∀ e ∈ arguments, HasKind kinds e f.argumentKind) →
      HasKind kinds (.call f arguments line) f.resultKind
  | rows {entries : List (List Expr)} {line : Nat} :
      (∀ row ∈ entries, ∀ e ∈ row, HasKind kinds e .scalar) →
      HasKind kinds (.rows entries line) .matrix

/-- The kinds of the values that names are bound to. -/
def Environment.kindOf? (env : Environment) (name : String) : Option Kind :=
  (env.get? name).map Value.kind

end ExactLinear
