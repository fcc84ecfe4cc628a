import ExactLinear.Builtin
import ExactLinear.Value.Basic

/- Syntax trees. Every node carries the line it is reported on; no other part of
   its meaning depends on that line. -/
namespace ExactLinear

inductive BinaryOp where
  | add | sub | mul | div
  deriving DecidableEq, Repr

def BinaryOp.text : BinaryOp → String
  | .add => "+"
  | .sub => "-"
  | .mul => "*"
  | .div => "/"

inductive Expr where
  | literal (value : Value) (line : Nat)
  | var (name : String) (line : Nat)
  | neg (operand : Expr) (line : Nat)
  | binary (op : BinaryOp) (left right : Expr) (line : Nat)
  | call (function : Builtin) (arguments : List Expr) (line : Nat)
  /-- A matrix written out, row by row. -/
  | rows (entries : List (List Expr)) (line : Nat)

/-- The line of the outermost node. -/
def Expr.line : Expr → Nat
  | .literal _ line | .var _ line | .neg _ line | .binary _ _ _ line | .call _ _ line
  | .rows _ line => line

inductive Statement where
  | assign (name : String) (value : Expr) (line : Nat)
  | evaluate (expr : Expr) (line : Nat)
  | block (body : List Statement) (line : Nat)

/-! Induction. What holds of a node when it holds of the nodes right below it holds of every
tree. -/

theorem Expr.induction {P : Expr → Prop}
    (literal : ∀ value line, P (.literal value line))
    (var : ∀ name line, P (.var name line))
    (neg : ∀ operand line, P operand → P (.neg operand line))
    (binary : ∀ op left right line, P left → P right → P (.binary op left right line))
    (call : ∀ function arguments line,
      (∀ e ∈ arguments, P e) → P (.call function arguments line))
    (rows : ∀ entries line, (∀ row ∈ entries, ∀ e ∈ row, P e) → P (.rows entries line))
    (e : Expr) : P e :=
  @Expr.rec P (fun es => ∀ e ∈ es, P e) (fun rows => ∀ row ∈ rows, ∀ e ∈ row, P e)
    literal var neg binary call rows
    (List.forall_mem_nil _) (fun _ _ he hes => List.forall_mem_cons.mpr ⟨he, hes⟩)
    (List.forall_mem_nil _) (fun _ _ hrow hrows => List.forall_mem_cons.mpr ⟨hrow, hrows⟩) e

theorem Statement.induction {P : Statement → Prop}
    (assign : ∀ name value line, P (.assign name value line))
    (evaluate : ∀ expr line, P (.evaluate expr line))
    (block : ∀ body line, (∀ s ∈ body, P s) → P (.block body line))
    (s : Statement) : P s :=
  @Statement.rec P (fun ss => ∀ s ∈ ss, P s) assign evaluate block
    (List.forall_mem_nil _) (fun _ _ hs hss => List.forall_mem_cons.mpr ⟨hs, hss⟩) s

/-! The parts of an expression: the expressions that stand anywhere in it. -/

namespace Expr

/-- The nodes right below a node. -/
def children : Expr → List Expr
  | .literal _ _ | .var _ _ => []
  | .neg operand _ => [operand]
  | .binary _ left right _ => [left, right]
  | .call _ arguments _ => arguments
  | .rows entries _ => entries.flatten

/-- That the second expression is a part of the first, which is a part of itself. -/
inductive Contains : Expr → Expr → Prop
  | self {e : Expr} : Contains e e
  | under {e child part : Expr} : child ∈ e.children → Contains child part → Contains e part

end Expr

end ExactLinear
