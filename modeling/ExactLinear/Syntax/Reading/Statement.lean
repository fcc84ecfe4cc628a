import ExactLinear.Syntax.Lexeme
import ExactLinear.Syntax.Reading.Expression

/- Reading statements, blocks and whole programs. As with expressions, a block is
   read by way of a routine for shorter lists, and `statement` ties the knot. -/
namespace ExactLinear

namespace Reading
variable {n : Nat}

/-- What is wrong after a complete statement, if anything. A separator or the end must follow;
in a block the end is too early, and a closing brace will do. -/
def afterStatement (inBlock : Bool) : List Token → Option ParseError
  | [] => if inBlock then some ⟨.endOfInput, 0⟩ else none
  | t :: _ =>
    if t.symbol.isSeparator then none
    else if inBlock ∧ t.symbol = .closeBrace then none
    else some ⟨.trailing t.symbol, t.line⟩

/-- The statements of a block up to and with its closing brace. -/
def body (inner : Reader Statement n) (line : Nat) (ts : List Token) (h : ts.length < n) :
    Reply (List Statement) (ts.length + 1) :=
  match hskip : skipSeparators ts with
  | [] => .fail ⟨.endOfInput, line⟩ []
  | t :: rest =>
    have hrest : rest.length < ts.length := length_lt_of_skipSeparators hskip
    if t.symbol = .closeBrace then .ok [] rest (Nat.lt_succ_of_lt hrest)
    else
      match inner (t :: rest) (Nat.lt_of_le_of_lt hrest h) with
      | .fail e after => .fail e after
      | .ok s after shorter =>
        have hafter : after.length < ts.length := Nat.lt_of_lt_of_le shorter hrest
        match afterStatement true after with
        | some e => .fail e after
        | none =>
          match body inner line after (Nat.lt_trans hafter h) with
          | .fail e left => .fail e left
          | .ok ss left fewer =>
            .ok (s :: ss) left (Nat.lt_of_lt_of_le fewer (Nat.le_succ_of_le hafter))
termination_by ts.length

/-- A block after its opening brace on the given line. -/
def blockWith (inner : Reader Statement n) (line : Nat) (ts : List Token) (h : ts.length < n) :
    Reply Statement (ts.length + 1) :=
  (body inner line ts h).map fun statements => .block statements line

/-- The line of the first token, zero when there is none. -/
def firstLine (ts : List Token) : Nat := (ts.head?.map Token.line).getD 0

/-- An assignment when an equals sign follows a name at the front, else an expression. -/
def simpleStatement (ts : List Token) : Reply Statement ts.length :=
  match ts with
  | ⟨.identifier name, line⟩ :: ⟨.equals, equalsLine⟩ :: rest =>
    if name ∈ Builtin.reserved then
      .fail ⟨.reserved name, line⟩ (⟨.identifier name, line⟩ :: ⟨.equals, equalsLine⟩ :: rest)
    else
      ((expression rest).map fun value => .assign name value line).widen
        (Nat.le_succ_of_le (Nat.le_succ _))
  | other => (expression other).map fun expr => .evaluate expr (firstLine other)

/-- The line of an opening brace at the front, and the tokens after it. -/
def braceAt? : List Token → Option (Nat × List Token)
  | [] => none
  | t :: rest => if t.symbol = .openBrace then some (t.line, rest) else none

theorem length_lt_of_braceAt? {ts rest : List Token} {line : Nat}
    (h : braceAt? ts = some (line, rest)) : rest.length < ts.length := by
  cases ts with
  | nil => simp [braceAt?] at h
  | cons t ts =>
    simp only [braceAt?] at h
    split at h
    · cases h
      exact Nat.lt_succ_self _
    · cases h

def statementWith (inner : Reader Statement n) : Reader Statement (n + 1) := fun ts h =>
  match hbrace : braceAt? ts with
  | some (line, rest) =>
    have hrest : rest.length < ts.length := length_lt_of_braceAt? hbrace
    (blockWith inner line rest (Nat.lt_of_lt_of_le hrest (Nat.le_of_lt_succ h))).widen hrest
  | none => simpleStatement ts

/-- A block, an assignment or an expression. -/
def statement (ts : List Token) : Reply Statement ts.length :=
  statementWith (fun shorter _ => statement shorter) ts (Nat.lt_succ_self ts.length)
termination_by ts.length

def block (line : Nat) (ts : List Token) : Reply Statement (ts.length + 1) :=
  blockWith (fun shorter _ => statement shorter) line ts (Nat.lt_succ_self ts.length)

/-- All statements up to the end. An end that comes too early is reported on `lastLine`. -/
def statements (lastLine : Nat) (ts : List Token) : Except ParseError (List Statement) :=
  match hskip : skipSeparators ts with
  | [] => .ok []
  | t :: rest =>
    match statement (t :: rest) with
    | .fail e _ => .error (if e.isIncomplete then ⟨.endOfInput, lastLine⟩ else e)
    | .ok s after shorter =>
      have : after.length < ts.length :=
        Nat.lt_of_lt_of_le shorter (length_lt_of_skipSeparators hskip)
      match afterStatement false after with
      | some e => .error e
      | none =>
        match statements lastLine after with
        | .ok ss => .ok (s :: ss)
        | .error e => .error e
termination_by ts.length

/-- The line of the last token, one when there is none. -/
def lastLine (ts : List Token) : Nat := (ts.getLast?.map Token.line).getD 1

end Reading

/-! Programs, read from tokens or from a text. -/

/-- The program that a list of tokens is, or the first error in it. -/
def program (ts : List Token) : Except ParseError (List Statement) :=
  Reading.statements (Reading.lastLine ts) ts

/-- The program that a text is. -/
def parse (text : String) : Except ParseError (List Statement) :=
  match tokenize text with
  | .ok tokens => program tokens
  | .error e => .error e

end ExactLinear
