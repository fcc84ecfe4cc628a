import ExactLinear.Syntax.Tree

/- The lines of syntax trees. `mapLine` changes the line of every node by one
   function. Two trees that differ in their lines only are the same once their
   lines are taken away, that is, set to zero. -/
namespace ExactLinear

namespace Expr

mutual

/-- The tree with the line of every node changed by `f`. -/
def mapLine (f : Nat → Nat) : Expr → Expr
  | .literal value line => .literal value (f line)
  | .var name line => .var name (f line)
  | .neg operand line => .neg (operand.mapLine f) (f line)
  | .binary op left right line => .binary op (left.mapLine f) (right.mapLine f) (f line)
  | .call function arguments line => .call function (mapLines f arguments) (f line)
  | .rows entries line => .rows (mapRows f entries) (f line)

def mapLines (f : Nat → Nat) : List Expr → List Expr
  | [] => []
  | e :: rest => e.mapLine f :: mapLines f rest

def mapRows (f : Nat → Nat) : List (List Expr) → List (List Expr)
  | [] => []
  | row :: rest => mapLines f row :: mapRows f rest

end

theorem mapLines_eq (f : Nat → Nat) (es : List Expr) : mapLines f es = es.map (mapLine f) := by
  induction es with
  | nil => rfl
  | cons e es ih => rw [mapLines, ih, List.map_cons]

theorem mapRows_eq (f : Nat → Nat) (rows : List (List Expr)) :
    mapRows f rows = rows.map (List.map (mapLine f)) := by
  induction rows with
  | nil => rfl
  | cons row rows ih => rw [mapRows, ih, mapLines_eq, List.map_cons]

section
variable (f : Nat → Nat) (line : Nat)

@[simp] theorem mapLine_literal (value : Value) :
    (literal value line).mapLine f = .literal value (f line) := rfl

@[simp] theorem mapLine_var (name : String) : (var name line).mapLine f = .var name (f line) := rfl

@[simp] theorem mapLine_neg (e : Expr) : (neg e line).mapLine f = .neg (e.mapLine f) (f line) := rfl

@[simp] theorem mapLine_binary (op : BinaryOp) (l r : Expr) :
    (binary op l r line).mapLine f = .binary op (l.mapLine f) (r.mapLine f) (f line) := rfl

@[simp] theorem mapLine_call (function : Builtin) (es : List Expr) :
    (call function es line).mapLine f = .call function (es.map (mapLine f)) (f line) := by
  rw [mapLine, mapLines_eq]

@[simp] theorem mapLine_rows (entries : List (List Expr)) :
    (rows entries line).mapLine f = .rows (entries.map (List.map (mapLine f))) (f line) := by
  rw [mapLine, mapRows_eq]

@[simp] theorem line_mapLine (e : Expr) : (e.mapLine f).line = f e.line := by
  cases e <;> rfl

end

/-- The tree without its lines. -/
abbrev unlined (e : Expr) : Expr := e.mapLine fun _ => 0

end Expr

namespace Statement

mutual

/-- The tree with the line of every node changed by `f`. -/
def mapLine (f : Nat → Nat) : Statement → Statement
  | .assign name value line => .assign name (value.mapLine f) (f line)
  | .evaluate expr line => .evaluate (expr.mapLine f) (f line)
  | .block body line => .block (mapLines f body) (f line)

def mapLines (f : Nat → Nat) : List Statement → List Statement
  | [] => []
  | s :: rest => s.mapLine f :: mapLines f rest

end

theorem mapLines_eq (f : Nat → Nat) (ss : List Statement) :
    mapLines f ss = ss.map (mapLine f) := by
  induction ss with
  | nil => rfl
  | cons s ss ih => rw [mapLines, ih, List.map_cons]

section
variable (f : Nat → Nat) (line : Nat)

@[simp] theorem mapLine_assign (name : String) (e : Expr) :
    (assign name e line).mapLine f = .assign name (e.mapLine f) (f line) := rfl

@[simp] theorem mapLine_evaluate (e : Expr) :
    (evaluate e line).mapLine f = .evaluate (e.mapLine f) (f line) := rfl

@[simp] theorem mapLine_block (ss : List Statement) :
    (block ss line).mapLine f = .block (ss.map (mapLine f)) (f line) := by
  rw [mapLine, mapLines_eq]

end

/-- The tree without its lines. -/
abbrev unlined (s : Statement) : Statement := s.mapLine fun _ => 0

end Statement

end ExactLinear
