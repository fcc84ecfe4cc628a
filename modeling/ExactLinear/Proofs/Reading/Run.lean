import ExactLinear.Proofs.Reading.Basic

/- Routines without their bounds. A reply carries the proof that it left fewer
   tokens, and a routine asks for a bound on the tokens it is given; results and
   `run` drop both. Every routine gets one equation for its run, in which nothing
   depends on a proof any more. -/
namespace ExactLinear

variable {α β : Type} {m n : Nat}

/-- A reply without its bound. -/
inductive Result (α : Type) where
  | ok (value : α) (rest : List Token)
  | fail (error : ParseError) (rest : List Token)

namespace Result

def map (f : α → β) : Result α → Result β
  | ok value rest => ok (f value) rest
  | fail e rest => fail e rest

/-- Goes on with the value and the tokens left, unless there is an error. -/
def andThen (r : Result α) (f : α → List Token → Result β) : Result β :=
  match r with
  | ok value rest => f value rest
  | fail e rest => fail e rest

section
variable (value : α) (e : ParseError) (rest : List Token)

@[simp] theorem map_ok (f : α → β) : (ok value rest).map f = ok (f value) rest := rfl

@[simp] theorem map_fail (f : α → β) : (fail e rest : Result α).map f = fail e rest := rfl

@[simp] theorem andThen_ok (f : α → List Token → Result β) :
    (ok value rest).andThen f = f value rest := rfl

@[simp] theorem andThen_fail (f : α → List Token → Result β) :
    (fail e rest : Result α).andThen f = fail e rest := rfl

end

end Result

namespace Reply

def result : Reply α n → Result α
  | ok value rest _ => .ok value rest
  | fail e rest => .fail e rest

@[simp] theorem result_ok (value : α) (rest : List Token) (h : rest.length < n) :
    (ok value rest h).result = .ok value rest := rfl

@[simp] theorem result_fail (e : ParseError) (rest : List Token) :
    (fail e rest : Reply α n).result = .fail e rest := rfl

@[simp] theorem result_widen (h : m ≤ n) (r : Reply α m) : (r.widen h).result = r.result := by
  cases r <;> rfl

@[simp] theorem result_map (f : α → β) (r : Reply α n) : (r.map f).result = r.result.map f := by
  cases r <;> rfl

theorem length_lt_of_result {r : Reply α n} {value : α} {rest : List Token}
    (h : r.result = .ok value rest) : rest.length < n := by
  cases r with
  | ok value rest shorter =>
    cases h
    exact shorter
  | fail e rest => cases h

end Reply

namespace Reading
variable {k : List Token → Nat}

/-- What a routine makes of a list. On a list that is too long for it nothing is said. -/
def run (r : (ts : List Token) → ts.length < n → Reply α (k ts)) (ts : List Token) : Result α :=
  if h : ts.length < n then (r ts h).result else .fail ⟨.endOfInput, 0⟩ ts

theorem run_eq (r : (ts : List Token) → ts.length < n → Reply α (k ts)) {ts : List Token}
    (h : ts.length < n) : run r ts = (r ts h).result := dif_pos h

theorem length_lt_of_run {r : (ts : List Token) → ts.length < n → Reply α (k ts)}
    {ts rest : List Token} {value : α} (h : run r ts = .ok value rest) : rest.length < k ts := by
  unfold run at h
  split at h
  · exact Reply.length_lt_of_result h
  · cases h

/-! Lists. -/

section
variable (item : Reader α n) (close : Symbol) (missing : ParseCause) (line : Nat)
  {ts : List Token}

theorem run_items (h : ts.length < n) :
    run (items close missing line item) ts =
      (run item ts).andThen fun value after =>
        match skipNewLines after with
        | [] => .fail ⟨.endOfInput, line⟩ []
        | t :: rest =>
          if t.symbol = .comma then
            (run (items close missing line item) (skipNewLines rest)).map (value :: ·)
          else if t.symbol = close then .ok [value] rest
          else .fail ⟨missing, line⟩ rest := by
  rw [run_eq _ h, run_eq _ h, items]
  split
  · next e after hr => rw [hr]; rfl
  · next value after shorter hr =>
    rw [hr, Reply.result_ok, Result.andThen_ok]
    split
    · next hskip => rw [hskip]; rfl
    · next t rest hskip =>
      have hrest : (skipNewLines rest).length < n := by
        have := skipNewLines_length_le rest
        have := length_lt_of_skipNewLines hskip
        omega
      simp only [hskip, run_eq _ hrest]
      split
      · split
        · next hrec => rw [hrec]; rfl
        · next hrec => rw [hrec]; rfl
      · split <;> rfl

theorem run_listUpTo (h : ts.length < n) :
    run (listUpTo close missing line item) ts =
      match skipNewLines ts with
      | [] => run (items close missing line item) []
      | t :: rest =>
        if t.symbol = close then .ok [] rest
        else run (items close missing line item) (t :: rest) := by
  rw [run_eq _ h]
  obtain ⟨t, rest, _, hskip, hclose, hok⟩ | ⟨h', _, hne, hitems⟩ :=
    listUpTo_cases close missing line item ts h
  · rw [hok, hskip]
    simp [hclose]
  · rw [hitems, Reply.result_widen, ← run_eq _ h']
    split
    · next hskip => rw [hskip]
    · next t rest hskip => rw [hskip, if_neg (hne t rest hskip)]

end

/-! Operands. -/

section
variable (inner : Reader Expr n) {ts : List Token}

theorem run_row (h : ts.length < n) :
    run (row inner) ts =
      match ts with
      | [] => .fail ⟨.endOfInput, 0⟩ []
      | t :: rest =>
        if t.symbol = .openBracket then
          (run (listUpTo .closeBracket .bracketExpected t.line inner) rest).andThen
            fun es after => if es = [] then .fail ⟨.emptyRow, t.line⟩ after else .ok es after
        else .fail ⟨.rowExpected t.symbol, t.line⟩ (t :: rest) := by
  rw [run_eq _ h]
  cases ts with
  | nil => rfl
  | cons t rest =>
    have hrest : rest.length < n := Nat.lt_of_succ_lt h
    simp only [row, run_eq _ hrest]
    split
    · split <;> next hr => simp [hr]
    · rfl

theorem run_matrix (line : Nat) (h : ts.length < n) :
    run (matrix inner line) ts =
      (run (listUpTo .closeBracket .bracketExpected line (row inner)) ts).andThen fun rows after =>
        if rows = [] then .fail ⟨.emptyMatrix, line⟩ after else .ok (.rows rows line) after := by
  rw [run_eq _ h, run_eq _ h, matrix]
  split <;> next hr => simp [hr]

theorem run_grouping (line : Nat) (h : ts.length < n) :
    run (grouping inner line) ts =
      (run inner ts).andThen fun value after =>
        match skipNewLines after with
        | [] => .fail ⟨.endOfInput, line⟩ []
        | t :: rest =>
          if t.symbol = .closeParen then .ok value rest else .fail ⟨.parenExpected, line⟩ rest := by
  rw [run_eq _ h, run_eq _ h, grouping]
  split
  · next hr => rw [hr]; rfl
  · next hr =>
    rw [hr, Reply.result_ok, Result.andThen_ok]
    split
    · next hskip => rw [hskip]; rfl
    · next hskip =>
      simp only [hskip]
      split <;> rfl

theorem run_call (name : String) (line : Nat) (h : ts.length < n) :
    run (call inner name line) ts =
      match Builtin.ofName? name with
      | none => .fail ⟨.unknownFunction name, line⟩ ts
      | some f =>
        (run (listUpTo .closeParen .parenExpected line inner) ts).map fun es => .call f es line := by
  rw [run_eq _ h, run_eq _ h, call]
  cases Builtin.ofName? name with
  | none => rfl
  | some f => exact Reply.result_map _ _

theorem run_named (name : String) (line : Nat) (h : ts.length < n) :
    run (named inner name line) ts =
      match ts with
      | [] => .ok (.var name line) []
      | t :: rest =>
        if t.symbol = .openParen then run (call inner name line) rest
        else .ok (.var name line) (t :: rest) := by
  rw [run_eq _ h]
  cases ts with
  | nil => rfl
  | cons t rest =>
    have hrest : rest.length < n := Nat.lt_of_succ_lt h
    simp only [named, run_eq _ hrest]
    split
    · rw [Reply.result_widen]
    · rfl

theorem run_primary (h : ts.length < n + 1) :
    run (primary inner) ts =
      match ts with
      | [] => .fail ⟨.endOfInput, 0⟩ []
      | t :: rest =>
        match t.symbol with
        | .number q => .ok (.literal (.scalar q) t.line) rest
        | .identifier name => run (named inner name t.line) rest
        | .openParen => run (grouping inner t.line) rest
        | .openBracket => run (matrix inner t.line) rest
        | found => .fail ⟨.unexpected found, t.line⟩ (t :: rest) := by
  rw [run_eq _ h]
  cases ts with
  | nil => rfl
  | cons t rest =>
    have hrest : rest.length < n := Nat.lt_of_succ_lt_succ h
    simp only [primary, run_eq _ hrest]
    cases t.symbol <;> rfl

end

/-! Precedence levels. -/

theorem run_unary (inner : Reader Expr n) {ts : List Token} (h : ts.length < n + 1) :
    run (unary inner) ts =
      match ts with
      | [] => run (primary inner) []
      | t :: rest =>
        match t.symbol with
        | .newLine => run (unary inner) rest
        | .minus => (run (unary inner) rest).map fun operand => .neg operand t.line
        | _ => run (primary inner) (t :: rest) := by
  rw [run_eq _ h]
  cases ts with
  | nil => rw [unary, run_eq _ h]
  | cons t rest =>
    have hrest : rest.length < n + 1 := Nat.lt_of_succ_lt h
    simp only [unary, run_eq _ hrest, run_eq _ h]
    cases t.symbol with
    | newLine => exact Reply.result_widen _ _
    | minus => rw [Reply.result_widen, Reply.result_map]
    | _ => rfl

section
variable (accepts : BinaryOp → Bool) (operand : Reader Expr n) {ts : List Token}

theorem run_chain (left : Expr) (h : ts.length < n) :
    run (chain accepts operand left) ts =
      match operatorAt? accepts ts with
      | none => .ok left ts
      | some (op, line, rest) =>
        (run operand rest).andThen fun right after =>
          run (chain accepts operand (.binary op left right line)) after := by
  rw [run_eq _ h, chain]
  split
  · next hop => rw [hop]; rfl
  · next op line rest hop =>
    have hrest := length_lt_of_operatorAt? hop
    simp only [hop, run_eq _ (Nat.lt_trans hrest h)]
    split
    · next hr => rw [hr]; rfl
    · next right after shorter hr =>
      have hafter : after.length < n := by omega
      rw [hr, Reply.result_widen, Reply.result_ok, Result.andThen_ok, run_eq _ hafter]

theorem run_leftAssociative (h : ts.length < n) :
    run (leftAssociative accepts operand) ts =
      (run operand ts).andThen fun left after => run (chain accepts operand left) after := by
  rw [run_eq _ h, run_eq _ h, leftAssociative]
  split
  · next hr => rw [hr]; rfl
  · next left after shorter hr =>
    rw [hr, Reply.result_widen, Reply.result_ok, Result.andThen_ok,
      run_eq _ (Nat.lt_trans shorter h)]

end

/-- The routine that expressions inside brackets are read with. -/
def innerExpression (n : Nat) : Reader Expr n := fun ts _ => expression ts

theorem run_innerExpression {ts : List Token} (h : ts.length < n) :
    run (innerExpression n) ts = (expression ts).result := run_eq _ h

theorem result_expression (ts : List Token) :
    (expression ts).result = run (additiveWith (innerExpression ts.length)) ts := by
  rw [expression, run_eq _ (Nat.lt_succ_self _)]
  rfl

/-! Statements. -/

theorem run_body (inner : Reader Statement n) (line : Nat) {ts : List Token} (h : ts.length < n) :
    run (body inner line) ts =
      match skipSeparators ts with
      | [] => .fail ⟨.endOfInput, line⟩ []
      | t :: rest =>
        if t.symbol = .closeBrace then .ok [] rest
        else
          (run inner (t :: rest)).andThen fun s after =>
            match afterStatement true after with
            | some e => .fail e after
            | none => (run (body inner line) after).map (s :: ·) := by
  rw [run_eq _ h, body]
  split
  · next hskip => rw [hskip]; rfl
  · next t rest hskip =>
    have hlt := length_lt_of_skipSeparators hskip
    have hts : (t :: rest).length < n := Nat.lt_of_le_of_lt hlt h
    simp only [hskip, run_eq _ hts]
    split
    · rfl
    · split
      · next hr => rw [hr]; rfl
      · next s after shorter hr =>
        have hafter : after.length < n := Nat.lt_trans shorter hts
        rw [hr, Reply.result_ok, Result.andThen_ok, run_eq _ hafter]
        cases hend : afterStatement true after with
        | some e => simp only [Reply.result_fail]
        | none =>
          dsimp only
          cases hrec : body inner line after hafter with
          | fail e left => simp only [Reply.result_fail, Result.map_fail]
          | ok ss left fewer => simp only [Reply.result_ok, Result.map_ok]

/-- The routine that the statements of a block are read with. -/
def innerStatement (n : Nat) : Reader Statement n := fun ts _ => statement ts

theorem run_innerStatement {ts : List Token} (h : ts.length < n) :
    run (innerStatement n) ts = (statement ts).result := run_eq _ h

theorem result_statement (ts : List Token) :
    (statement ts).result =
      match braceAt? ts with
      | some (line, rest) =>
        (run (body (innerStatement ts.length) line) rest).map fun ss => .block ss line
      | none => (simpleStatement ts).result := by
  rw [statement, statementWith]
  split
  · next line rest hbrace =>
    simp only [hbrace, run_eq _ (length_lt_of_braceAt? hbrace)]
    exact (Reply.result_widen _ _).trans (Reply.result_map _ _)
  · next hbrace => rw [hbrace]

theorem result_simpleStatement_assign (name : String) (line equalsLine : Nat)
    (rest : List Token) :
    (simpleStatement (⟨.identifier name, line⟩ :: ⟨.equals, equalsLine⟩ :: rest)).result =
      if name ∈ Builtin.reserved then
        .fail ⟨.reserved name, line⟩ (⟨.identifier name, line⟩ :: ⟨.equals, equalsLine⟩ :: rest)
      else (expression rest).result.map fun value => .assign name value line := by
  rw [simpleStatement]
  split
  · rfl
  · rw [Reply.result_widen, Reply.result_map]

/-- That a list begins with a name and an equals sign. -/
def IsAssignment (ts : List Token) : Prop :=
  ∃ name line equalsLine rest,
    ts = ⟨.identifier name, line⟩ :: ⟨.equals, equalsLine⟩ :: rest

theorem result_simpleStatement {ts : List Token} (h : ¬IsAssignment ts) :
    (simpleStatement ts).result =
      (expression ts).result.map fun expr => .evaluate expr (firstLine ts) := by
  unfold simpleStatement
  split
  · exact absurd ⟨_, _, _, _, rfl⟩ h
  · exact Reply.result_map _ _

theorem statements_eq (lastLine : Nat) (ts : List Token) :
    statements lastLine ts =
      match skipSeparators ts with
      | [] => .ok []
      | t :: rest =>
        match (statement (t :: rest)).result with
        | .fail e _ => .error (if e.isIncomplete then ⟨.endOfInput, lastLine⟩ else e)
        | .ok s after =>
          match afterStatement false after with
          | some e => .error e
          | none => (statements lastLine after).map (s :: ·) := by
  rw [statements]
  split
  · next hskip => rw [hskip]
  · next t rest hskip =>
    simp only [hskip]
    split
    · next hr => rw [hr]; rfl
    · next s after shorter hr =>
      simp only [hr, Reply.result_ok]
      cases hend : afterStatement false after with
      | some e => rfl
      | none =>
        dsimp only
        cases statements lastLine after <;> rfl

end Reading

end ExactLinear
