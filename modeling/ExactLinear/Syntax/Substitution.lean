import ExactLinear.Syntax.Tree

/- Substitution: every occurrence of a variable replaced by an expression, all of them
   at once. What is put in is not looked at again, so it may mention the variable
   itself. -/
namespace ExactLinear.Expr

mutual

/-- The expression with every occurrence of the variable of the given name replaced. -/
def substitute : Expr → String → Expr → Expr
  | .literal value line, _, _ => .literal value line
  | .var other line, name, e => if other = name then e else .var other line
  | .neg operand line, name, e => .neg (operand.substitute name e) line
  | .binary op left right line, name, e =>
    .binary op (left.substitute name e) (right.substitute name e) line
  | .call function arguments line, name, e => .call function (substituteAll arguments name e) line
  | .rows entries line, name, e => .rows (substituteRows entries name e) line

def substituteAll : List Expr → String → Expr → List Expr
  | [], _, _ => []
  | t :: rest, name, e => t.substitute name e :: substituteAll rest name e

def substituteRows : List (List Expr) → String → Expr → List (List Expr)
  | [], _, _ => []
  | row :: rest, name, e => substituteAll row name e :: substituteRows rest name e

end

variable (name : String) (e : Expr)

theorem substituteAll_eq (ts : List Expr) :
    substituteAll ts name e = ts.map fun t => t.substitute name e := by
  induction ts with
  | nil => rfl
  | cons t ts ih => rw [substituteAll, ih, List.map_cons]

theorem substituteRows_eq (rows : List (List Expr)) :
    substituteRows rows name e = rows.map (List.map fun t => t.substitute name e) := by
  induction rows with
  | nil => rfl
  | cons row rows ih => rw [substituteRows, ih, substituteAll_eq, List.map_cons]

section
variable (line : Nat)

@[simp] theorem substitute_literal (value : Value) :
    (literal value line).substitute name e = .literal value line := rfl

@[simp] theorem substitute_var_self : (var name line).substitute name e = e := if_pos rfl

theorem substitute_var_of_ne {other : String} (h : other ≠ name) :
    (var other line).substitute name e = .var other line := if_neg h

@[simp] theorem substitute_neg (operand : Expr) :
    (neg operand line).substitute name e = .neg (operand.substitute name e) line := rfl

@[simp] theorem substitute_binary (op : BinaryOp) (l r : Expr) :
    (binary op l r line).substitute name e =
      .binary op (l.substitute name e) (r.substitute name e) line := rfl

@[simp] theorem substitute_call (function : Builtin) (ts : List Expr) :
    (call function ts line).substitute name e =
      .call function (ts.map fun t => t.substitute name e) line := by
  rw [substitute, substituteAll_eq]

@[simp] theorem substitute_rows (entries : List (List Expr)) :
    (rows entries line).substitute name e =
      .rows (entries.map (List.map fun t => t.substitute name e)) line := by
  rw [substitute, substituteRows_eq]

end

end ExactLinear.Expr
