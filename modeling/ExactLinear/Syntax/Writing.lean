import ExactLinear.Syntax.Lexeme
import ExactLinear.Text

/- Writing programs as texts. A layout says what is free: where parentheses stand that
   are not needed, which separator follows a statement, and how many spaces there
   are between symbols. Parentheses that are needed, because of precedence or
   because operators group from the left, are written in every layout. At the end
   values are written as expressions, and printed matrices as texts of the language. -/
namespace ExactLinear

namespace Symbol

/-- The text of a symbol. -/
def spelling : Symbol → List Char
  | .number q => Decimal.numeral q
  | .identifier name => name.toList
  | .plus => ['+']
  | .minus => ['-']
  | .star => ['*']
  | .slash => ['/']
  | .openParen => ['(']
  | .closeParen => [')']
  | .openBracket => ['[']
  | .closeBracket => [']']
  | .openBrace => ['{']
  | .closeBrace => ['}']
  | .comma => [',']
  | .equals => ['=']
  | .semicolon => [';']
  | .newLine => ['\n']

/-- Whether a symbol is written with letters or digits. -/
def isWord : Symbol → Bool
  | .number _ | .identifier _ => true
  | _ => false

/-- Whether the texts of two symbols must be kept apart: words run together, and two slashes
begin a comment. -/
def runsInto (s t : Symbol) : Bool := (s.isWord && t.isWord) || (s == .slash && t == .slash)

end Symbol

/-- Whether a name has the form of identifiers: a letter or an underscore, and then letters,
digits and underscores. -/
def Lexeme.IsName (name : String) : Prop :=
  ∃ c cs, name.toList = c :: cs ∧ isNameStart c = true ∧ ∀ a ∈ cs, isNamePart a = true

theorem Lexeme.isName_iff {name : String} :
    IsName name ↔
      name.toList.head?.any isNameStart = true ∧ name.toList.tail.all isNamePart = true := by
  constructor
  · rintro ⟨c, cs, hname, hc, hcs⟩
    simpa [hname] using And.intro hc hcs
  · rintro ⟨hc, hcs⟩
    cases hname : name.toList with
    | nil => simp [hname] at hc
    | cons c cs =>
      rw [hname] at hc hcs
      exact ⟨c, cs, hname, hc, List.all_eq_true.mp hcs⟩

instance Lexeme.decidablePredIsName : DecidablePred IsName := fun _ =>
  decidable_of_iff _ isName_iff.symm

/-! Precedence. -/

/-- Zero for sums, one for products. -/
def BinaryOp.level : BinaryOp → Nat
  | .add | .sub => 0
  | .mul | .div => 1

def BinaryOp.symbol : BinaryOp → Symbol
  | .add => .plus
  | .sub => .minus
  | .mul => .star
  | .div => .slash

/-- How tightly the outermost construct of an expression binds. -/
def Expr.level : Expr → Nat
  | .binary op _ _ _ => op.level
  | .neg _ _ => 2
  | _ => 3

/-! Layouts. -/

structure Layout where
  /-- Whether an expression stands in parentheses where it need not. -/
  parenthesized : Expr → Bool
  /-- Whether a semicolon, and not a line break, separates a statement from the next. -/
  semicolon : Statement → Bool
  /-- The number of spaces between two symbols, where one more is put if they must be kept apart. -/
  gap : Symbol → Symbol → Nat

namespace Layout

/-- No parentheses but the needed ones. -/
def minimal (semicolon : Statement → Bool) (gap : Symbol → Symbol → Nat) : Layout :=
  ⟨fun _ => false, semicolon, gap⟩

/-- Every expression in parentheses. -/
def full (semicolon : Statement → Bool) (gap : Symbol → Symbol → Nat) : Layout :=
  ⟨fun _ => true, semicolon, gap⟩

variable (L : Layout)

/-- An expression where one of at least the given level is needed, from how it is written
without parentheses. -/
def enclose (least : Nat) (e : Expr) (w : List Symbol) : List Symbol :=
  if e.level < least ∨ L.parenthesized e then .openParen :: (w ++ [.closeParen]) else w

/-- Items with commas between them and the closing symbol after them. -/
def listed (close : Symbol) : List (List Symbol) → List Symbol
  | [] => [close]
  | [w] => w ++ [close]
  | w :: ws => w ++ .comma :: listed close ws

mutual

/-- The symbols of an expression without parentheses around it. A literal that is no scalar has
none. -/
def bare : Expr → List Symbol
  | .literal (.scalar q) _ => [.number q]
  | .literal _ _ => []
  | .var name _ => [.identifier name]
  | .neg operand _ => .minus :: L.enclose 2 operand (bare operand)
  | .binary op left right _ =>
    L.enclose op.level left (bare left) ++
      op.symbol :: L.enclose (op.level + 1) right (bare right)
  | .call f arguments _ =>
    .identifier f.name :: .openParen :: listed .closeParen (itemsOf arguments)
  | .rows entries _ => .openBracket :: listed .closeBracket (rowsOf entries)

def itemsOf : List Expr → List (List Symbol)
  | [] => []
  | e :: rest => L.enclose 0 e (bare e) :: itemsOf rest

def rowsOf : List (List Expr) → List (List Symbol)
  | [] => []
  | row :: rest => (.openBracket :: listed .closeBracket (itemsOf row)) :: rowsOf rest

end

/-- The symbols of an expression where one of at least the given level is needed. -/
def expression (least : Nat) (e : Expr) : List Symbol := L.enclose least e (L.bare e)

def separator (s : Statement) : Symbol := if L.semicolon s then .semicolon else .newLine

mutual

def statement : Statement → List Symbol
  | .assign name value _ => .identifier name :: .equals :: L.expression 0 value
  | .evaluate expr _ => L.expression 0 expr
  | .block body _ => .openBrace :: (statements body ++ [.closeBrace])

/-- Statements with separators between them. -/
def statements : List Statement → List Symbol
  | [] => []
  | [s] => statement s
  | s :: rest => statement s ++ L.separator s :: statements rest

end

/-- The text of a list of symbols. -/
def spell : List Symbol → List Char
  | [] => []
  | [s] => s.spelling
  | s :: t :: rest =>
    s.spelling ++ List.replicate (L.gap s t + if s.runsInto t then 1 else 0) ' ' ++
      spell (t :: rest)

/-- The text of a program. -/
def text (p : List Statement) : String := String.ofList (L.spell (L.statements p))

end Layout

/-! What can be written. -/

/-- That an expression is built from what has a text: of literals, only decimal fractions without a
sign do; a name needs the form of identifiers; and a matrix has a row and no row is empty. -/
inductive Expr.Writable : Expr → Prop
  | literal {q : Scalar} {line : Nat} : Decimal.Terminating q →
      Writable (.literal (.scalar q) line)
  | var {name : String} {line : Nat} : Lexeme.IsName name → Writable (.var name line)
  | neg {operand : Expr} {line : Nat} : Writable operand → Writable (.neg operand line)
  | binary {op : BinaryOp} {left right : Expr} {line : Nat} : Writable left → Writable right →
      Writable (.binary op left right line)
  | call {f : Builtin} {arguments : List Expr} {line : Nat} : (∀ e ∈ arguments, Writable e) →
      Writable (.call f arguments line)
  | rows {entries : List (List Expr)} {line : Nat} : entries ≠ [] → (∀ row ∈ entries, row ≠ []) →
      (∀ row ∈ entries, ∀ e ∈ row, Writable e) → Writable (.rows entries line)

inductive Statement.Writable : Statement → Prop
  | assign {name : String} {value : Expr} {line : Nat} : Lexeme.IsName name →
      name ∉ Builtin.reserved → value.Writable → Writable (.assign name value line)
  | evaluate {expr : Expr} {line : Nat} : expr.Writable → Writable (.evaluate expr line)
  | block {body : List Statement} {line : Nat} : (∀ s ∈ body, Writable s) →
      Writable (.block body line)

/-! Expressions for given values, built as the printed forms of the values are: a minus for a
negative number, a quotient for one with a denominator, and rows for a matrix. -/

namespace Expr

def natural (n : Nat) : Expr := .literal (.scalar (Scalar.ofCount n)) 1

def integer (z : Int) : Expr := if z < 0 then .neg (natural z.natAbs) 1 else natural z.natAbs

def fraction (q : Scalar) : Expr :=
  if q.den = 1 then integer q.num else .binary .div (integer q.num) (natural q.den) 1

def ofMat (A : Mat) : Expr := .rows (A.toRows.map fun row => row.map fraction) 1

end Expr

/-! A printed matrix, typed in again. The brackets that close off a printed line are taken away and
its entries found by the white space between them; the entries of a line, and then the lines, are
put in brackets with commas between them. -/

namespace Retyped

def isBracket (c : Char) : Bool := c == '[' || c == ']'

/-- A line without the brackets at its ends. -/
def unbracketed (line : List Char) : List Char :=
  (((line.dropWhile isBracket).reverse).dropWhile isBracket).reverse

/-- Items in brackets, a comma and a space between one and the next. -/
def bracketed (items : List (List Char)) : List Char :=
  '[' :: ([',', ' '].intercalate items ++ [']'])

/-- The text of the language that a printed matrix becomes. -/
def matrix (printed : String) : String :=
  String.ofList (bracketed ((Lines.split '\n' '\r' printed.toList).map fun line =>
    bracketed (Words.split (unbracketed line))))

end Retyped

end ExactLinear
