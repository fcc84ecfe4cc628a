import ExactLinear.Syntax.Token

/- The grammar of the language: which lists of symbols are expressions, statements
   and programs, and of which tree. It says nothing about how a list is read. The
   trees that it derives carry no lines: the line of every node is zero.

   A form that contains expressions takes them as a parameter; `Expression` closes
   the circle, and likewise `Statement` for the statements in blocks. -/
namespace ExactLinear.Grammar

/-- What it is for a list of symbols to be written for a value. -/
abbrev Form (α : Type) := List Symbol → α → Prop

variable {α : Type}

/-! Lists. -/

/-- Any number of line breaks. -/
def Breaks (w : List Symbol) : Prop := ∀ s ∈ w, s = .newLine

/-- Items with commas between them and the closing symbol after them, with line breaks around
each comma and before the closing symbol. No comma follows the last item. -/
inductive Items (item : Form α) (close : Symbol) : Form (List α)
  | last {w b : List Symbol} {x : α} : item w x → Breaks b →
      Items item close (w ++ b ++ [close]) [x]
  | next {w b b' w' : List Symbol} {x : α} {xs : List α} : item w x → Breaks b → Breaks b' →
      Items item close w' xs → Items item close (w ++ b ++ .comma :: (b' ++ w')) (x :: xs)

/-- A list that is not empty. -/
inductive Filled (item : Form α) (close : Symbol) : Form (List α)
  | intro {b w : List Symbol} {xs : List α} : Breaks b → Items item close w xs →
      Filled item close (b ++ w) xs

/-- A list, after the symbol that opens it. -/
inductive Listed (item : Form α) (close : Symbol) : Form (List α)
  | empty {b : List Symbol} : Breaks b → Listed item close (b ++ [close]) []
  | filled {w : List Symbol} {xs : List α} : Filled item close w xs → Listed item close w xs

/-! Expressions. -/

section
variable (expr : Form Expr)

/-- A row of a matrix. -/
inductive Row : Form (List Expr)
  | intro {w : List Symbol} {es : List Expr} : Filled expr .closeBracket w es →
      Row (.openBracket :: w) es

inductive Primary : Form Expr
  | number {q : Scalar} : Primary [.number q] (.literal (.scalar q) 0)
  | name {x : String} : Primary [.identifier x] (.var x 0)
  | call {x : String} {f : Builtin} {w : List Symbol} {es : List Expr} :
      Builtin.ofName? x = some f → Listed expr .closeParen w es →
      Primary (.identifier x :: .openParen :: w) (.call f es 0)
  | group {w b : List Symbol} {e : Expr} : expr w e → Breaks b →
      Primary (.openParen :: (w ++ b ++ [.closeParen])) e
  | matrix {w : List Symbol} {rows : List (List Expr)} : Filled (Row expr) .closeBracket w rows →
      Primary (.openBracket :: w) (.rows rows 0)

inductive Unary : Form Expr
  | neg {b w : List Symbol} {e : Expr} : Breaks b → Unary w e →
      Unary (b ++ .minus :: w) (.neg e 0)
  | primary {b w : List Symbol} {e : Expr} : Breaks b → Primary expr w e → Unary (b ++ w) e

end

/-- The operators of sums. -/
inductive Additive : Symbol → BinaryOp → Prop
  | plus : Additive .plus .add
  | minus : Additive .minus .sub

/-- The operators of products. -/
inductive Multiplicative : Symbol → BinaryOp → Prop
  | star : Multiplicative .star .mul
  | slash : Multiplicative .slash .div

/-- Operands joined by operators, grouped from the left. -/
inductive Chain (operator : Symbol → BinaryOp → Prop) (operand : Form Expr) : Form Expr
  | single {w : List Symbol} {e : Expr} : operand w e → Chain operator operand w e
  | apply {w w' : List Symbol} {s : Symbol} {op : BinaryOp} {l r : Expr} :
      Chain operator operand w l → operator s op → operand w' r →
      Chain operator operand (w ++ s :: w') (.binary op l r 0)

/-- A sum of products. -/
inductive Expression : Form Expr
  | intro {w : List Symbol} {e : Expr} :
      Chain Additive (Chain Multiplicative (Unary Expression)) w e → Expression w e

/-! Statements. -/

/-- Any number of line breaks and semicolons. -/
def Separators (w : List Symbol) : Prop := ∀ s ∈ w, s.isSeparator = true

/-- That a statement before these symbols is ended: by a separator, or by there being none. -/
def Ended (w : List Symbol) : Prop := ∀ s ∈ w.head?, s.isSeparator = true

/-- Statements, each of them ended, with any number of separators around them. -/
inductive Statements (statement : Form Statement) : Form (List Statement)
  | nil {b : List Symbol} : Separators b → Statements statement b []
  | cons {b w w' : List Symbol} {s : Statement} {ss : List Statement} : Separators b →
      statement w s → Ended w' → Statements statement w' ss →
      Statements statement (b ++ w ++ w') (s :: ss)

inductive Statement : Form ExactLinear.Statement
  | assign {x : String} {w : List Symbol} {e : Expr} : x ∉ Builtin.reserved → Expression w e →
      Statement (.identifier x :: .equals :: w) (.assign x e 0)
  | block {w : List Symbol} {ss : List ExactLinear.Statement} : Statements Statement w ss →
      Statement (.openBrace :: (w ++ [.closeBrace])) (.block ss 0)
  | evaluate {w : List Symbol} {e : Expr} : Expression w e → Statement w (.evaluate e 0)

abbrev Program : Form (List ExactLinear.Statement) := Statements Statement

end ExactLinear.Grammar
