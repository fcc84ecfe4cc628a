import ExactLinear.Syntax.Tree

/- The variables of an expression, wherever they stand in it. -/
namespace ExactLinear.Expr

mutual

/-- The names of the variables, as often as they occur. -/
def reads : Expr → List String
  | .literal _ _ => []
  | .var name _ => [name]
  | .neg operand _ => operand.reads
  | .binary _ left right _ => left.reads ++ right.reads
  | .call _ arguments _ => readsOfAll arguments
  | .rows entries _ => readsOfRows entries

def readsOfAll : List Expr → List String
  | [] => []
  | e :: rest => e.reads ++ readsOfAll rest

def readsOfRows : List (List Expr) → List String
  | [] => []
  | row :: rest => readsOfAll row ++ readsOfRows rest

end

theorem readsOfAll_eq (es : List Expr) : readsOfAll es = es.flatMap reads := by
  induction es with
  | nil => rfl
  | cons e es ih => rw [readsOfAll, ih, List.flatMap_cons]

theorem readsOfRows_eq (rows : List (List Expr)) :
    readsOfRows rows = rows.flatMap (List.flatMap reads) := by
  induction rows with
  | nil => rfl
  | cons row rows ih => rw [readsOfRows, ih, readsOfAll_eq, List.flatMap_cons]

section
variable (line : Nat)

@[simp] theorem reads_literal (value : Value) : (literal value line).reads = [] := rfl

@[simp] theorem reads_var (name : String) : (var name line).reads = [name] := rfl

@[simp] theorem reads_neg (e : Expr) : (neg e line).reads = e.reads := rfl

@[simp] theorem reads_binary (op : BinaryOp) (l r : Expr) :
    (binary op l r line).reads = l.reads ++ r.reads := rfl

@[simp] theorem reads_call (function : Builtin) (es : List Expr) :
    (call function es line).reads = es.flatMap reads := by
  rw [reads, readsOfAll_eq]

@[simp] theorem reads_rows (entries : List (List Expr)) :
    (rows entries line).reads = entries.flatMap (List.flatMap reads) := by
  rw [reads, readsOfRows_eq]

end

end ExactLinear.Expr
