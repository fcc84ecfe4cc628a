import ExactLinear.Syntax.Reading.Statement

/- Recursive descent as the forms have it. The routines take tokens off the front of
   those that are left, call each other as the forms nest, and go round in loops. No
   bound is built into a call. `parse depth` gives up, without a result, where calls
   would be nested more than `depth` deep; a routine comes to an end when its result
   no longer depends on that limit once it is high enough. -/
namespace ExactLinear

/-- A computation on the tokens that are left. -/
abbrev Parser := ExceptT ParseError (StateT (List Token) Option)

namespace Parser

/-! Steps. -/

/-- No result at all. -/
def giveUp {α : Type} : Parser α := fun _ => none

def fail {α : Type} (cause : ParseCause) (line : Nat) : Parser α := throw ⟨cause, line⟩

/-- The next token, which is left where it is. -/
def peek : Parser (Option Token) := do return (← get).head?

/-- Takes the next token. -/
def next : Parser (Option Token) := modifyGet fun ts => (ts.head?, ts.tail)

/-- Takes an opening symbol and returns its line. -/
def opening : Parser Nat := do return ((← next).map Token.line).getD 0

def dropNewLines : Parser Unit := modify Reading.skipNewLines

def dropSeparators : Parser Unit := modify Reading.skipSeparators

/-- Fails if what follows does not end a statement. -/
def expectEnd (inBlock : Bool) : Parser Unit := do
  match Reading.afterStatement inBlock (← get) with
  | none => return ()
  | some e => throw e

/-! Routines and loops. -/

/-- What a round of a loop comes to. -/
inductive Round (σ α : Type) where
  /-- Another round, from this state. -/
  | again (state : σ)
  | done (result : α)

/-- The two levels of binary operators. -/
inductive Level where
  | additive | multiplicative

/-- What stands between commas. -/
inductive Item : Type → Type 1 where
  | expression : Item Expr
  | row : Item (List Expr)

/-- The loops, with the type of their states and that of their results. -/
inductive Loop : Type → Type → Type 1 where
  /-- Operands after the first one. -/
  | operators (level : Level) : Loop Expr Expr
  | items {α : Type} (item : Item α) (close : Symbol) (missing : ParseCause) (line : Nat) :
      Loop (List α) (List α)
  | block (line : Nat) : Loop (List Statement) Statement
  /-- The statements of a program, of which the last token is on `lastLine`. -/
  | program (lastLine : Nat) : Loop (List Statement) (List Statement)

inductive Routine : Type → Type 1 where
  | expression : Routine Expr
  | additive : Routine Expr
  | multiplicative : Routine Expr
  | leftAssociative (level : Level) : Routine Expr
  | unary : Routine Expr
  | primary : Routine Expr
  | grouping : Routine Expr
  | matrix : Routine Expr
  | row : Routine (List Expr)
  | named : Routine Expr
  | listed {α : Type} (item : Item α) (close : Symbol) (missing : ParseCause) (line : Nat) :
      Routine (List α)
  | statement : Routine Statement
  | assignment : Routine (Option Statement)
  | block (line : Nat) : Routine Statement
  | program : Routine (List Statement)
  | loop {σ α : Type} (l : Loop σ α) (state : σ) : Routine α
  | round {σ α : Type} (l : Loop σ α) (state : σ) : Routine (Round σ α)

def Level.accepts : Level → BinaryOp → Bool
  | .additive => Reading.isAdditive
  | .multiplicative => Reading.isMultiplicative

def Level.operand : Level → Routine Expr
  | .additive => .multiplicative
  | .multiplicative => .unary

def Item.routine {α : Type} : Item α → Routine α
  | .expression => .expression
  | .row => .row

/-- What each routine does, the others being called wherever its form has them. -/
def perform {α : Type} (call : {β : Type} → Routine β → Parser β) (r : Routine α) : Parser α :=
  match r with
  | .expression => call .additive
  | .additive => call (.leftAssociative .additive)
  | .multiplicative => call (.leftAssociative .multiplicative)
  | .leftAssociative level => do
    let left ← call level.operand
    call (.loop (.operators level) left)
  | .unary => do
    dropNewLines
    match ← peek with
    | some ⟨.minus, line⟩ => do
      let _ ← next
      return .neg (← call .unary) line
    | _ => call .primary
  | .primary => do
    match ← peek with
    | none => fail .endOfInput 0
    | some t =>
      match t.symbol with
      | .number q => do
        let _ ← next
        return .literal (.scalar q) t.line
      | .identifier _ => call .named
      | .openParen => call .grouping
      | .openBracket => call .matrix
      | found => fail (.unexpected found) t.line
  | .grouping => do
    let line ← opening
    let value ← call .expression
    dropNewLines
    match ← next with
    | none => fail .endOfInput line
    | some t => if t.symbol = .closeParen then return value else fail .parenExpected line
  | .matrix => do
    let line ← opening
    let rows ← call (.listed .row .closeBracket .bracketExpected line)
    if rows = [] then fail .emptyMatrix line else return .rows rows line
  | .row => do
    match ← peek with
    | none => fail .endOfInput 0
    | some t =>
      if t.symbol = .openBracket then do
        let _ ← next
        let entries ← call (.listed .expression .closeBracket .bracketExpected t.line)
        if entries = [] then fail .emptyRow t.line else return entries
      else fail (.rowExpected t.symbol) t.line
  | .named => do
    match ← next with
    | none => fail .endOfInput 0
    | some t =>
      match t.symbol with
      | .identifier name => do
        if (← peek).map Token.symbol = some .openParen then do
          let _ ← next
          match Builtin.ofName? name with
          | none => fail (.unknownFunction name) t.line
          | some f =>
            return .call f (← call (.listed .expression .closeParen .parenExpected t.line)) t.line
        else return .var name t.line
      | found => fail (.unexpected found) t.line
  | .listed item close missing line => do
    dropNewLines
    if (← peek).map Token.symbol = some close then do
      let _ ← next
      return []
    else call (.loop (.items item close missing line) [])
  | .statement => do
    match ← peek with
    | some ⟨.openBrace, line⟩ => do
      let _ ← next
      call (.block line)
    | _ =>
      match ← call .assignment with
      | some s => return s
      | none => do
        let line := Reading.firstLine (← get)
        return .evaluate (← call .expression) line
  | .assignment => do
    match ← get with
    | ⟨.identifier name, line⟩ :: ⟨.equals, _⟩ :: rest =>
      if name ∈ Builtin.reserved then fail (.reserved name) line
      else do
        set rest
        return some (.assign name (← call .expression) line)
    | _ => return none
  | .block line => call (.loop (.block line) [])
  | .program => do
    call (.loop (.program (Reading.lastLine (← get))) [])
  | .loop l state => do
    match ← call (.round l state) with
    | .again state => call (.loop l state)
    | .done result => return result
  | .round (.operators level) left => do
    match Reading.operatorAt? level.accepts (← get) with
    | none => return .done left
    | some (op, line, rest) => do
      set rest
      return .again (.binary op left (← call level.operand) line)
  | .round (.items item close missing line) before => do
    let value ← call item.routine
    dropNewLines
    match ← next with
    | none => fail .endOfInput line
    | some t =>
      if t.symbol = .comma then do
        dropNewLines
        return .again (before ++ [value])
      else if t.symbol = close then return .done (before ++ [value])
      else fail missing line
  | .round (.block line) before => do
    dropSeparators
    match ← peek with
    | none => fail .endOfInput line
    | some t =>
      if t.symbol = .closeBrace then do
        let _ ← next
        return .done (.block before line)
      else do
        let s ← call .statement
        expectEnd true
        return .again (before ++ [s])
  | .round (.program lastLine) before => do
    dropSeparators
    if (← peek).isNone then return .done before
    else do
      -- A statement that the end cuts off is reported on the last line.
      let s ← tryCatch (call .statement) fun e =>
        throw (if e.isIncomplete then ⟨.endOfInput, lastLine⟩ else e)
      expectEnd false
      return .again (before ++ [s])

/-- A routine with calls nested at most `depth` deep. -/
def parse {α : Type} (depth : Nat) (r : Routine α) : Parser α :=
  match depth with
  | 0 => giveUp
  | depth + 1 => perform (fun called => parse depth called) r

end Parser

end ExactLinear
