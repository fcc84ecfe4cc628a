import ExactLinear.Syntax.Reading.Reply

/- Reading expressions. The routines of the three precedence levels and of the
   operands are each given the routine for expressions inside brackets, which
   they call on shorter lists only; `expression` ties the knot. A routine is
   handed on as a function of the tokens alone, so that the bound on their number
   stays in the types and is never computed. -/
namespace ExactLinear.Reading
variable {n : Nat}

/-! Operands. -/

/-- A row of a matrix: a list in brackets that is not empty. -/
def row (inner : Reader Expr n) : Reader (List Expr) n := fun ts h =>
  match ts with
  | [] => .fail ⟨.endOfInput, 0⟩ []
  | t :: rest =>
    if t.symbol = .openBracket then
      match listUpTo .closeBracket .bracketExpected t.line inner rest (Nat.lt_of_succ_lt h) with
      | .fail e after => .fail e after
      | .ok [] after _ => .fail ⟨.emptyRow, t.line⟩ after
      | .ok (x :: xs) after shorter => .ok (x :: xs) after shorter
    else .fail ⟨.rowExpected t.symbol, t.line⟩ (t :: rest)

/-- A matrix after its opening bracket. -/
def matrix (inner : Reader Expr n) (line : Nat) (ts : List Token) (h : ts.length < n) :
    Reply Expr (ts.length + 1) :=
  match listUpTo .closeBracket .bracketExpected line (fun ts h => row inner ts h) ts h with
  | .fail e after => .fail e after
  | .ok [] after _ => .fail ⟨.emptyMatrix, line⟩ after
  | .ok (r :: rs) after shorter => .ok (.rows (r :: rs) line) after shorter

/-- An expression in parentheses after the opening one. -/
def grouping (inner : Reader Expr n) (line : Nat) (ts : List Token) (h : ts.length < n) :
    Reply Expr (ts.length + 1) :=
  match inner ts h with
  | .fail e after => .fail e after
  | .ok value after shorter =>
    match hskip : skipNewLines after with
    | [] => .fail ⟨.endOfInput, line⟩ []
    | t :: rest =>
      if t.symbol = .closeParen then
        .ok value rest
          (Nat.lt_succ_of_lt (Nat.lt_trans (length_lt_of_skipNewLines hskip) shorter))
      else .fail ⟨.parenExpected, line⟩ rest

/-- The arguments of a call after the opening parenthesis. -/
def call (inner : Reader Expr n) (name : String) (line : Nat) (ts : List Token)
    (h : ts.length < n) : Reply Expr (ts.length + 1) :=
  match Builtin.ofName? name with
  | none => .fail ⟨.unknownFunction name, line⟩ ts
  | some f =>
    (listUpTo .closeParen .parenExpected line inner ts h).map fun arguments =>
      .call f arguments line

/-- A variable, or a call if a parenthesis follows the name. -/
def named (inner : Reader Expr n) (name : String) (line : Nat) (ts : List Token)
    (h : ts.length < n) : Reply Expr (ts.length + 1) :=
  match ts with
  | [] => .leaving (.var name line) []
  | t :: rest =>
    if t.symbol = .openParen then
      (call inner name line rest (Nat.lt_of_succ_lt h)).widen (Nat.le_succ _)
    else .leaving (.var name line) (t :: rest)

/-- A number, a variable, a call, a matrix or an expression in parentheses. -/
def primary (inner : Reader Expr n) : Reader Expr (n + 1) := fun ts h =>
  match ts with
  | [] => .fail ⟨.endOfInput, 0⟩ []
  | t :: rest =>
    have hrest : rest.length < n := Nat.lt_of_succ_lt_succ h
    match t.symbol with
    | .number q => .leaving (.literal (.scalar q) t.line) rest
    | .identifier name => named inner name t.line rest hrest
    | .openParen => grouping inner t.line rest hrest
    | .openBracket => matrix inner t.line rest hrest
    | found => .fail ⟨.unexpected found, t.line⟩ (t :: rest)

/-! Precedence levels. -/

/-- Any number of minus signs, with line breaks before each of them and before the operand. -/
def unary (inner : Reader Expr n) : Reader Expr (n + 1)
  | [], h => primary inner [] h
  | t :: rest, h =>
    match t.symbol with
    | .newLine => (unary inner rest (Nat.lt_of_succ_lt h)).widen (Nat.le_succ _)
    | .minus =>
      ((unary inner rest (Nat.lt_of_succ_lt h)).map fun operand => .neg operand t.line).widen
        (Nat.le_succ _)
    | _ => primary inner (t :: rest) h

def isMultiplicative : BinaryOp → Bool
  | .mul | .div => true
  | .add | .sub => false

def isAdditive : BinaryOp → Bool
  | .add | .sub => true
  | .mul | .div => false

def multiplicativeWith (inner : Reader Expr n) : Reader Expr (n + 1) :=
  leftAssociative isMultiplicative fun ts h => unary inner ts h

def additiveWith (inner : Reader Expr n) : Reader Expr (n + 1) :=
  leftAssociative isAdditive fun ts h => multiplicativeWith inner ts h

/-- An expression, as much of the list as belongs to it. -/
def expression (ts : List Token) : Reply Expr ts.length :=
  additiveWith (fun shorter _ => expression shorter) ts (Nat.lt_succ_self ts.length)
termination_by ts.length

/-- An expression of products only, with any expression inside brackets. -/
def multiplicative (ts : List Token) : Reply Expr ts.length :=
  multiplicativeWith (fun shorter _ => expression shorter) ts (Nat.lt_succ_self ts.length)

/-- An expression of sums and products. -/
def additive (ts : List Token) : Reply Expr ts.length :=
  additiveWith (fun shorter _ => expression shorter) ts (Nat.lt_succ_self ts.length)

end ExactLinear.Reading
