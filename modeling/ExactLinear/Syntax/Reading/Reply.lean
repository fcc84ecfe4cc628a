import ExactLinear.Syntax.ParseError

/- Replies of reading routines. A routine reads from the front of a list of tokens
   and hands back the tokens after what it read. On success they are strictly
   fewer, which a reply proves; so every loop over routines ends, however
   deeply a program is nested. A failure hands back what was left when it arose.

   Besides replies the module holds what all routines share: skipping separators,
   chains of operators, and lists between brackets. -/
namespace ExactLinear

/-- The reply of a routine to a list of `n` tokens. -/
inductive Reply (α : Type) (n : Nat) where
  | ok (value : α) (rest : List Token) (shorter : rest.length < n)
  | fail (error : ParseError) (rest : List Token)

namespace Reply
variable {α β : Type} {m n : Nat}

/-- A value that leaves the given tokens, of a list that has one more. -/
def leaving (value : α) (rest : List Token) : Reply α (rest.length + 1) :=
  .ok value rest (Nat.lt_succ_self _)

/-- The same reply, to a longer list. -/
def widen (h : m ≤ n) : Reply α m → Reply α n
  | .ok value rest shorter => .ok value rest (Nat.lt_of_lt_of_le shorter h)
  | .fail e rest => .fail e rest

def map (f : α → β) : Reply α n → Reply β n
  | .ok value rest shorter => .ok (f value) rest shorter
  | .fail e rest => .fail e rest

/-- The value or the error. -/
def outcome : Reply α n → Except ParseError α
  | .ok value _ _ => .ok value
  | .fail e _ => .error e

/-- The tokens not consumed. -/
def rest : Reply α n → List Token
  | .ok _ rest _ => rest
  | .fail _ rest => rest

end Reply

/-- A routine for lists of fewer than `n` tokens. -/
abbrev Reader (α : Type) (n : Nat) := (ts : List Token) → ts.length < n → Reply α ts.length

namespace Reading
variable {α : Type} {n : Nat}

/-! Separators. -/

def skipNewLines : List Token → List Token
  | [] => []
  | t :: rest => if t.symbol = .newLine then skipNewLines rest else t :: rest

/-- Skips line breaks and semicolons. -/
def skipSeparators : List Token → List Token
  | [] => []
  | t :: rest => if t.symbol.isSeparator then skipSeparators rest else t :: rest

theorem skipNewLines_length_le (ts : List Token) : (skipNewLines ts).length ≤ ts.length := by
  fun_induction skipNewLines ts with
  | case1 => exact Nat.le_refl _
  | case2 t rest _ ih => exact Nat.le_succ_of_le ih
  | case3 => exact Nat.le_refl _

theorem skipSeparators_length_le (ts : List Token) :
    (skipSeparators ts).length ≤ ts.length := by
  fun_induction skipSeparators ts with
  | case1 => exact Nat.le_refl _
  | case2 t rest _ ih => exact Nat.le_succ_of_le ih
  | case3 => exact Nat.le_refl _

theorem length_lt_of_skipNewLines {ts rest : List Token} {t : Token}
    (h : skipNewLines ts = t :: rest) : rest.length < ts.length := by
  have := skipNewLines_length_le ts
  rw [h] at this
  exact this

theorem length_lt_of_skipSeparators {ts rest : List Token} {t : Token}
    (h : skipSeparators ts = t :: rest) : rest.length < ts.length := by
  have := skipSeparators_length_le ts
  rw [h] at this
  exact this

/-! Chains of operators. -/

/-- An accepted operator at the front, its line and the tokens after it. -/
def operatorAt? (accepts : BinaryOp → Bool) : List Token → Option (BinaryOp × Nat × List Token)
  | [] => none
  | t :: rest => (t.symbol.operator?.filter accepts).map fun op => (op, t.line, rest)

theorem length_lt_of_operatorAt? {accepts : BinaryOp → Bool} {ts rest : List Token}
    {op : BinaryOp} {line : Nat} (h : operatorAt? accepts ts = some (op, line, rest)) :
    rest.length < ts.length := by
  cases ts with
  | nil => simp [operatorAt?] at h
  | cons t ts =>
    obtain ⟨_, _, e⟩ := Option.map_eq_some_iff.1 h
    cases e
    exact Nat.lt_succ_self _

/-- Goes on after the operand `left` for as long as an accepted operator follows, and builds the
tree from the left. An operation stands on the line of its operator. -/
def chain (accepts : BinaryOp → Bool) (operand : Reader Expr n) (left : Expr)
    (ts : List Token) (h : ts.length < n) : Reply Expr (ts.length + 1) :=
  match hop : operatorAt? accepts ts with
  | none => .leaving left ts
  | some (op, line, rest) =>
    have hrest : rest.length < ts.length := length_lt_of_operatorAt? hop
    match operand rest (Nat.lt_trans hrest h) with
    | .fail e after => .fail e after
    | .ok right after shorter =>
      have hafter : after.length < ts.length := Nat.lt_trans shorter hrest
      (chain accepts operand (.binary op left right line) after (Nat.lt_trans hafter h)).widen
        (Nat.succ_le_succ (Nat.le_of_lt hafter))
termination_by ts.length

/-- Operands joined by accepted operators, all of one precedence. -/
def leftAssociative (accepts : BinaryOp → Bool) (operand : Reader Expr n) : Reader Expr n :=
  fun ts h =>
    match operand ts h with
    | .fail e after => .fail e after
    | .ok left after shorter =>
      (chain accepts operand left after (Nat.lt_trans shorter h)).widen shorter

/-! Lists. -/

/-- One or more items with commas between them, up to and with the closing symbol. Line breaks
are allowed around commas and before the closing symbol. When another symbol stands where a comma
or the closing symbol should, that symbol is consumed and `missing` is reported on `line`. -/
def items (close : Symbol) (missing : ParseCause) (line : Nat) (item : Reader α n)
    (ts : List Token) (h : ts.length < n) : Reply (List α) ts.length :=
  match item ts h with
  | .fail e after => .fail e after
  | .ok value after shorter =>
    match hskip : skipNewLines after with
    | [] => .fail ⟨.endOfInput, line⟩ []
    | t :: rest =>
      have hrest : rest.length < ts.length :=
        Nat.lt_trans (length_lt_of_skipNewLines hskip) shorter
      if t.symbol = .comma then
        have hnext := Nat.lt_of_le_of_lt (skipNewLines_length_le rest) hrest
        match items close missing line item (skipNewLines rest) (Nat.lt_trans hnext h) with
        | .fail e after => .fail e after
        | .ok values after shorter => .ok (value :: values) after (Nat.lt_trans shorter hnext)
      else if t.symbol = close then .ok [value] rest hrest
      else .fail ⟨missing, line⟩ rest
termination_by ts.length

/-- A list that may be empty, after its opening symbol on the given line. -/
def listUpTo (close : Symbol) (missing : ParseCause) (line : Nat) (item : Reader α n)
    (ts : List Token) (h : ts.length < n) : Reply (List α) (ts.length + 1) :=
  match hskip : skipNewLines ts with
  | [] =>
    (items close missing line item [] (Nat.lt_of_le_of_lt (Nat.zero_le _) h)).widen
      (Nat.zero_le _)
  | t :: rest =>
    have hrest : rest.length < ts.length := length_lt_of_skipNewLines hskip
    if t.symbol = close then .ok [] rest (Nat.lt_succ_of_lt hrest)
    else
      (items close missing line item (t :: rest) (Nat.lt_of_le_of_lt hrest h)).widen
        (Nat.le_succ_of_le hrest)

end Reading

end ExactLinear
