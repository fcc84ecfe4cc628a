import ExactLinear.Proofs.Reading.Finishing

/- Recursive descent comes to an end on every list of tokens, and no call needs a bound
   for it. Each routine does what the bounded one of the same name does (`Follows`)
   and leaves a suffix of what it was given. The routines are taken in the order in
   which their forms nest, each with those inside brackets or braces taken for granted
   on shorter lists; an induction on the number of tokens closes the circle. -/
namespace ExactLinear.Parser

open Reading

variable {α : Type} {n : Nat} {k : List Token → Nat}

/-- On fewer than `n` tokens the routine `p` comes to an end, with the result of `r`. -/
def Follows (p : Routine α) (r : (ts : List Token) → ts.length < n → Reply α (k ts)) : Prop :=
  ∀ ts, ts.length < n → Finishes (parse · p) ts (run r ts)

/-! Lists. -/

/-- The result of a round after the items `before`. -/
def itemsRound (close : Symbol) (missing : ParseCause) (line : Nat) (item : Reader α n)
    (before : List α) (ts : List Token) : Result (Round (List α) (List α)) :=
  (run item ts).andThen fun value after =>
    match skipNewLines after with
    | [] => .fail ⟨.endOfInput, line⟩ []
    | t :: rest =>
      if t.symbol = .comma then .ok (.again (before ++ [value])) (skipNewLines rest)
      else if t.symbol = close then .ok (.done (before ++ [value])) rest
      else .fail ⟨missing, line⟩ rest

section
variable {item : Item α} {reader : Reader α n} (close : Symbol) (missing : ParseCause)
  (line : Nat)

theorem items_round (hitem : Follows item.routine reader) (before : List α) (ts : List Token)
    (hts : ts.length < n) :
    Finishes (parse · (.round (.items item close missing line) before)) ts
      (itemsRound close missing line reader before ts) := by
  refine .call ?_
  refine (hitem ts hts).bind fun value after _ => ?_
  refine .step (.dropNewLines after) (.step (.next _) ?_)
  cases skipNewLines after with
  | nil => exact .fail ..
  | cons t rest =>
    dsimp only [List.head?_cons, List.tail_cons]
    by_cases hcomma : t.symbol = .comma
    · simp only [hcomma, if_true]
      exact .step (.dropNewLines rest) (.pure ..)
    · simp only [hcomma, if_false]
      by_cases hclose : t.symbol = close
      · simp only [hclose, if_true]
        exact .pure ..
      · simp only [hclose, if_false]
        exact .fail ..

theorem itemsRound_shorter {before : List α} {ts rest : List Token}
    {step : Round (List α) (List α)}
    (h : itemsRound close missing line reader before ts = .ok step rest) :
    rest.length < ts.length := by
  obtain ⟨value, after, hr, h⟩ := Result.andThen_eq_ok h
  have hafter := length_lt_of_run hr
  cases hskip : skipNewLines after with
  | nil => simp [hskip] at h
  | cons t left =>
    have hleft := length_lt_of_skipNewLines hskip
    simp only [hskip] at h
    split at h
    · cases h
      exact Nat.lt_of_le_of_lt (skipNewLines_length_le left) (Nat.lt_trans hleft hafter)
    · split at h <;> cases h
      exact Nat.lt_trans hleft hafter

theorem items_follows (hitem : Follows item.routine reader) (before : List α) (ts : List Token)
    (hts : ts.length < n) :
    Finishes (parse · (.loop (.items item close missing line) before)) ts
      ((run (items close missing line reader) ts).map (before ++ ·)) := by
  refine Finishes.loop
    (F := fun before ts => (run (items close missing line reader) ts).map (before ++ ·))
    (items_round close missing line hitem) (fun _ _ _ _ => itemsRound_shorter close missing line)
    (fun before ts hts => ?_) before ts hts
  rw [run_items _ _ _ _ hts, itemsRound]
  cases run reader ts with
  | fail e after => rfl
  | ok value after =>
    simp only [Result.andThen_ok]
    cases skipNewLines after with
    | nil => rfl
    | cons t rest =>
      dsimp only
      by_cases hcomma : t.symbol = .comma
      · simp only [hcomma, if_true]
        exact Result.map_append_cons before value _
      · simp only [hcomma, if_false]
        split <;> rfl

theorem listed_follows (item : Item α) {reader : Reader α n} (hitem : Follows item.routine reader) :
    Follows (.listed item close missing line) (listUpTo close missing line reader) := by
  intro ts hts
  have hle := skipNewLines_length_le ts
  have hitems := items_follows close missing line hitem [] (skipNewLines ts)
    (Nat.lt_of_le_of_lt hle hts)
  rw [Result.map_nil_append] at hitems
  rw [run_listUpTo _ _ _ _ hts]
  refine .call (.step (.dropNewLines ts) (.step (.peek _) ?_))
  generalize skipNewLines ts = us at hitems ⊢
  cases us with
  | nil => exact hitems
  | cons t rest =>
    by_cases hclose : t.symbol = close
    · simp only [List.head?_cons, Option.map_some, hclose, if_true]
      exact .step (.next (t :: rest)) (.pure ..)
    · simp only [List.head?_cons, Option.map_some, Option.some.injEq, hclose, if_false]
      exact hitems

end

/-! Operands. -/

section
variable {inner : Reader Expr n}

theorem row_follows (hinner : Follows .expression inner) : Follows .row (row inner) := by
  intro ts hts
  rw [run_row _ hts]
  refine .call (.step (.peek ts) ?_)
  cases ts with
  | nil => exact .fail ..
  | cons t rest =>
    dsimp only [List.head?_cons]
    by_cases hopen : t.symbol = .openBracket
    · simp only [hopen, if_true]
      refine .step (.next _) ?_
      refine (listed_follows _ _ _ .expression hinner rest
        (Nat.lt_of_succ_lt hts)).bind fun es after _ => ?_
      by_cases hes : es = []
      · simp only [hes, if_true]
        exact .fail ..
      · simp only [hes, if_false]
        exact .pure ..
    · simp only [hopen, if_false]
      exact .fail ..

theorem matrix_follows (hinner : Follows .expression inner) {t : Token} {rest : List Token}
    (hrest : rest.length < n) :
    Finishes (parse · .matrix) (t :: rest) (run (matrix inner t.line) rest) := by
  rw [run_matrix _ _ hrest]
  refine .call (.step (.opening t rest) ?_)
  refine (listed_follows _ _ _ .row (row_follows hinner) rest hrest).bind
    fun rows after _ => ?_
  by_cases hrows : rows = []
  · simp only [hrows, if_true]
    exact .fail ..
  · simp only [hrows, if_false]
    exact .pure ..

theorem grouping_follows (hinner : Follows .expression inner) {t : Token} {rest : List Token}
    (hrest : rest.length < n) :
    Finishes (parse · .grouping) (t :: rest) (run (grouping inner t.line) rest) := by
  rw [run_grouping _ _ hrest]
  refine .call (.step (.opening t rest) ?_)
  refine (hinner rest hrest).bind fun value after _ => ?_
  refine .step (.dropNewLines after) (.step (.next _) ?_)
  cases skipNewLines after with
  | nil => exact .fail ..
  | cons u left =>
    dsimp only [List.head?_cons, List.tail_cons]
    by_cases hclose : u.symbol = .closeParen
    · simp only [hclose, if_true]
      exact .pure ..
    · simp only [hclose, if_false]
      exact .fail ..

theorem named_follows (hinner : Follows .expression inner) (name : String) (line : Nat)
    {rest : List Token} (hrest : rest.length < n) :
    Finishes (parse · .named) (⟨.identifier name, line⟩ :: rest)
      (run (named inner name line) rest) := by
  rw [run_named _ _ _ hrest]
  refine .call (.step (.next _) (.step (.peek rest) ?_))
  cases rest with
  | nil => exact .pure ..
  | cons t after =>
    by_cases hopen : t.symbol = .openParen
    · simp only [List.head?_cons, Option.map_some, hopen, if_true]
      have hafter := Nat.lt_of_succ_lt hrest
      rw [run_call _ _ _ hafter]
      refine .step (.next _) ?_
      cases Builtin.ofName? name with
      | none => exact .fail ..
      | some f =>
        exact (listed_follows _ _ _ .expression hinner after hafter).map _
    · simp only [List.head?_cons, Option.map_some, Option.some.injEq, hopen, if_false]
      exact .pure ..

theorem primary_follows (hinner : Follows .expression inner) :
    Follows .primary (primary inner) := by
  intro ts hts
  rw [run_primary _ hts]
  refine .call (.step (.peek ts) ?_)
  cases ts with
  | nil => exact .fail ..
  | cons t rest =>
    obtain ⟨symbol, line⟩ := t
    have hrest : rest.length < n := Nat.lt_of_succ_lt_succ hts
    dsimp only [List.head?_cons]
    cases symbol with
    | number q => exact .step (.next _) (.pure ..)
    | identifier name => exact named_follows hinner name line hrest
    | openParen => exact grouping_follows hinner hrest
    | openBracket => exact matrix_follows hinner hrest
    | _ => exact .fail ..

/-! Precedence levels. -/

theorem unary_follows (hinner : Follows .expression inner) : Follows .unary (unary inner) := by
  intro ts hts
  have hprimary := primary_follows hinner
  induction ts with
  | nil =>
    rw [run_unary _ hts]
    exact .call (.step (.dropNewLines []) (.step (.peek []) (hprimary [] hts)))
  | cons t rest ih =>
    obtain ⟨symbol, line⟩ := t
    have hrest := ih (Nat.lt_of_succ_lt hts)
    rw [run_unary _ hts]
    cases symbol with
    | newLine =>
      refine hrest.of_suffix (fun d => ?_) (List.suffix_cons _ rest)
      cases d <;> rfl
    | minus =>
      exact .call (.step (.dropNewLines _) (.step (.peek _) (.step (.next _) (hrest.map _))))
    | _ => exact .call (.step (.dropNewLines _) (.step (.peek _) (hprimary _ hts)))

end

section
variable {level : Level} {operand : Reader Expr n}

/-- The result of a round after the operand `left`. -/
def chainRound (accepts : BinaryOp → Bool) (operand : Reader Expr n) (left : Expr)
    (ts : List Token) : Result (Round Expr Expr) :=
  match operatorAt? accepts ts with
  | none => .ok (.done left) ts
  | some (op, line, rest) =>
    (run operand rest).map fun right => .again (.binary op left right line)

theorem operators_round (hoperand : Follows level.operand operand) (left : Expr)
    (ts : List Token) (hts : ts.length < n) :
    Finishes (parse · (.round (.operators level) left)) ts
      (chainRound level.accepts operand left ts) := by
  rw [chainRound]
  refine .call (.step (.get ts) ?_)
  cases hop : operatorAt? level.accepts ts with
  | none => exact .pure ..
  | some found =>
    obtain ⟨op, line, rest⟩ := found
    obtain ⟨t, rfl, -⟩ := operatorAt?_eq_some hop
    exact .step (.set (List.suffix_cons t rest)) ((hoperand rest (Nat.lt_of_succ_lt hts)).map _)

theorem chainRound_shorter {accepts : BinaryOp → Bool} {left left' : Expr} {ts rest : List Token}
    (h : chainRound accepts operand left ts = .ok (.again left') rest) :
    rest.length < ts.length := by
  unfold chainRound at h
  cases hop : operatorAt? accepts ts with
  | none => simp [hop] at h
  | some found =>
    rw [hop] at h
    obtain ⟨right, hr, -⟩ := Result.map_eq_ok h
    exact Nat.lt_trans (length_lt_of_run hr) (length_lt_of_operatorAt? hop)

theorem chain_follows (hoperand : Follows level.operand operand) (left : Expr)
    (ts : List Token) (hts : ts.length < n) :
    Finishes (parse · (.loop (.operators level) left)) ts
      (run (chain level.accepts operand left) ts) := by
  refine Finishes.loop (F := fun left => run (chain level.accepts operand left))
    (operators_round hoperand) (fun _ _ _ _ => chainRound_shorter)
    (fun left ts hts => ?_) left ts hts
  rw [run_chain _ _ _ hts, chainRound]
  cases operatorAt? level.accepts ts with
  | none => rfl
  | some found =>
    dsimp only
    cases run operand found.2.2 <;> rfl

theorem leftAssociative_follows (level : Level) {operand : Reader Expr n}
    (hoperand : Follows level.operand operand) :
    Follows (.leftAssociative level) (leftAssociative level.accepts operand) := by
  intro ts hts
  rw [run_leftAssociative _ _ hts]
  exact .call ((hoperand ts hts).bind fun left after hr =>
    chain_follows hoperand left after (Nat.lt_trans (length_lt_of_run hr) hts))

end

section
variable {inner : Reader Expr n}

theorem multiplicative_follows (hinner : Follows .expression inner) :
    Follows .multiplicative (multiplicativeWith inner) := by
  intro ts hts
  exact .call (leftAssociative_follows .multiplicative (unary_follows hinner) ts hts)

theorem additive_follows (hinner : Follows .expression inner) :
    Follows .additive (additiveWith inner) := by
  intro ts hts
  exact .call (leftAssociative_follows .additive (multiplicative_follows hinner) ts hts)

end

theorem expression_follows (n : Nat) : Follows .expression (innerExpression n) := by
  induction n using Nat.strongRecOn with
  | ind n ih =>
    intro ts hts
    rw [run_innerExpression hts, result_expression]
    exact .call (additive_follows (ih _ hts) ts (Nat.lt_succ_self _))

theorem expression_finishes (ts : List Token) :
    Finishes (parse · .expression) ts (expression ts).result := by
  have hts := Nat.lt_succ_self ts.length
  rw [← run_innerExpression hts]
  exact expression_follows _ ts hts

/-! Statements. -/

section
variable {inner : Reader Statement n} (line : Nat)

/-- The result of a round after the statements `before` of a block. -/
def blockRound (inner : Reader Statement n) (line : Nat) (before : List Statement)
    (ts : List Token) : Result (Round (List Statement) Statement) :=
  match skipSeparators ts with
  | [] => .fail ⟨.endOfInput, line⟩ []
  | t :: rest =>
    if t.symbol = .closeBrace then .ok (.done (.block before line)) rest
    else
      (run inner (t :: rest)).andThen fun s after =>
        (statementEnd true after).map fun _ => .again (before ++ [s])

theorem block_round (hinner : Follows .statement inner) (before : List Statement)
    (ts : List Token) (hts : ts.length < n) :
    Finishes (parse · (.round (.block line) before)) ts (blockRound inner line before ts) := by
  rw [blockRound]
  refine .call (.step (.dropSeparators ts) (.step (.peek _) ?_))
  have hle := skipSeparators_length_le ts
  generalize skipSeparators ts = us at hle ⊢
  cases us with
  | nil => exact .fail ..
  | cons t rest =>
    dsimp only [List.head?_cons]
    by_cases hclose : t.symbol = .closeBrace
    · simp only [hclose, if_true]
      exact .step (.next _) (.pure ..)
    · simp only [hclose, if_false]
      exact (hinner _ (Nat.lt_of_le_of_lt hle hts)).bind fun s after _ =>
        (Finishes.expectEnd true after).map _

theorem blockRound_shorter {before : List Statement} {ts rest : List Token}
    {step : Round (List Statement) Statement}
    (h : blockRound inner line before ts = .ok step rest) :
    rest.length < ts.length := by
  unfold blockRound at h
  cases hskip : skipSeparators ts with
  | nil => simp [hskip] at h
  | cons t left =>
    have hleft := length_lt_of_skipSeparators hskip
    simp only [hskip] at h
    split at h
    · cases h
      exact hleft
    · obtain ⟨s, after, hr, h⟩ := Result.andThen_eq_ok h
      obtain ⟨_, hend, -⟩ := Result.map_eq_ok h
      obtain rfl := statementEnd_eq_ok hend
      exact Nat.lt_of_lt_of_le (length_lt_of_run hr) hleft

/-- The block that the statements `before` and those still to be read make up. -/
def blockFrom (inner : Reader Statement n) (line : Nat) (before : List Statement)
    (ts : List Token) : Result Statement :=
  ((run (body inner line) ts).map (before ++ ·)).map (.block · line)

theorem blockFrom_eq_round (inner : Reader Statement n) (before : List Statement)
    {ts : List Token} (hts : ts.length < n) :
    blockFrom inner line before ts =
      (blockRound inner line before ts).andThen (Round.follow (blockFrom inner line)) := by
  rw [blockFrom, run_body _ _ hts, blockRound]
  cases skipSeparators ts with
  | nil => rfl
  | cons t rest =>
    dsimp only
    by_cases hclose : t.symbol = .closeBrace
    · simp [hclose, Round.follow]
    · simp only [hclose, if_false]
      cases run inner (t :: rest) with
      | fail e after => rfl
      | ok s after =>
        simp only [Result.andThen_ok, statementEnd]
        cases afterStatement true after with
        | some e => rfl
        | none => exact congrArg (Result.map _) (Result.map_append_cons before s _)

theorem length_lt_of_blockFrom {before : List Statement} {ts rest : List Token} {s : Statement}
    (hts : ts.length < n) (h : blockFrom inner line before ts = .ok s rest) :
    rest.length < ts.length := by
  rw [blockFrom_eq_round line inner before hts] at h
  obtain ⟨step, after, hr, h⟩ := Result.andThen_eq_ok h
  have hafter := blockRound_shorter line hr
  cases step with
  | done value =>
    cases h
    exact hafter
  | again before' =>
    obtain ⟨_, h, -⟩ := Result.map_eq_ok h
    obtain ⟨_, h, -⟩ := Result.map_eq_ok h
    exact Nat.lt_of_lt_of_le (length_lt_of_run h) hafter

theorem run_blockWith {ts : List Token} (hts : ts.length < n) :
    run (blockWith inner line) ts = (run (body inner line) ts).map (.block · line) := by
  rw [run_eq _ hts, run_eq _ hts]
  exact Reply.result_map _ _

theorem blockFrom_nil {ts : List Token} (hts : ts.length < n) :
    blockFrom inner line [] ts = run (blockWith inner line) ts := by
  rw [blockFrom, Result.map_nil_append, run_blockWith line hts]

theorem block_follows (hinner : Follows .statement inner) :
    Follows (.block line) (blockWith inner line) := by
  intro ts hts
  rw [← blockFrom_nil line hts]
  exact .call (Finishes.loop (block_round line hinner)
    (fun _ _ _ _ => blockRound_shorter line)
    (fun before _ hts => blockFrom_eq_round line inner before hts) [] ts hts)

end

theorem assignment_follows (name : String) (line equalsLine : Nat) (rest : List Token) :
    Finishes (parse · .assignment) (⟨.identifier name, line⟩ :: ⟨.equals, equalsLine⟩ :: rest)
      ((simpleStatement (⟨.identifier name, line⟩ :: ⟨.equals, equalsLine⟩ :: rest)).result.map
        some) := by
  rw [result_simpleStatement_assign]
  refine .call (.step (.get _) ?_)
  by_cases hname : name ∈ Builtin.reserved
  · simp only [hname, if_true]
    exact .fail ..
  · simp only [hname, if_false]
    have hrest := (List.suffix_cons ⟨.equals, equalsLine⟩ rest).trans
      (List.suffix_cons ⟨.identifier name, line⟩ _)
    rw [Result.map_map]
    exact .step (.set hrest) ((expression_finishes rest).map _)

theorem assignment_none {ts : List Token} (h : ¬IsAssignment ts) :
    Finishes (parse · .assignment) ts (.ok none ts) := by
  refine .call (.step (.get ts) ?_)
  split
  · exact absurd ⟨_, _, _, _, rfl⟩ h
  · exact .pure ..

theorem statement_follows (n : Nat) : Follows .statement (innerStatement n) := by
  induction n using Nat.strongRecOn with
  | ind n ih =>
    intro ts hts
    rw [run_innerStatement hts, result_statement]
    refine .call (.step (.peek ts) ?_)
    cases hbrace : braceAt? ts with
    | some found =>
      obtain ⟨line, rest⟩ := found
      obtain ⟨⟨symbol, line⟩, rfl, rfl, rfl⟩ := braceAt?_eq_some hbrace
      have hrest : rest.length < (⟨.openBrace, line⟩ :: rest : List Token).length :=
        Nat.lt_succ_self _
      dsimp only
      rw [← run_blockWith line hrest]
      exact .step (.next _) (block_follows line (ih _ hts) rest hrest)
    | none =>
      split
      · next line hpeek =>
        obtain ⟨rest, rfl⟩ := List.head?_eq_some_iff.mp hpeek
        cases hbrace
      · by_cases hassign : IsAssignment ts
        · obtain ⟨name, line, equalsLine, rest, rfl⟩ := hassign
          have h := assignment_follows name line equalsLine rest
          generalize (simpleStatement _).result = r at h ⊢
          cases r with
          | ok s after => exact h.step (.pure s after)
          | fail e after => exact h.bind_fail
        · rw [result_simpleStatement hassign]
          exact .step (assignment_none hassign) (.step (.get ts) ((expression_finishes ts).map _))

theorem statement_finishes (ts : List Token) :
    Finishes (parse · .statement) ts (statement ts).result := by
  have hts := Nat.lt_succ_self ts.length
  rw [← run_innerStatement hts]
  exact statement_follows _ ts hts

/-! Programs. -/

/-- The result of a round after the statements `before` of a program. -/
def statementsRound (lastLine : Nat) (before : List Statement) (ts : List Token) :
    Result (Round (List Statement) (List Statement)) :=
  match skipSeparators ts with
  | [] => .ok (.done before) []
  | t :: rest =>
    ((statement (t :: rest)).result.mapError fun e =>
        if e.isIncomplete then ⟨.endOfInput, lastLine⟩ else e).andThen fun s after =>
      (statementEnd false after).map fun _ => .again (before ++ [s])

section
variable {lastLine : Nat} {before : List Statement} {ts rest : List Token}

theorem statements_round (lastLine : Nat) (before : List Statement) (ts : List Token) :
    Finishes (parse · (.round (.program lastLine) before)) ts
      (statementsRound lastLine before ts) := by
  rw [statementsRound]
  refine .call (.step (.dropSeparators ts) (.step (.peek _) ?_))
  cases skipSeparators ts with
  | nil => exact .pure ..
  | cons t rest =>
    exact ((statement_finishes _).mapError _).bind fun s after _ =>
      (Finishes.expectEnd false after).map _

theorem statementsRound_shorter {before' : List Statement}
    (h : statementsRound lastLine before ts = .ok (.again before') rest) :
    rest.length < ts.length := by
  unfold statementsRound at h
  cases hskip : skipSeparators ts with
  | nil => simp [hskip] at h
  | cons t left =>
    rw [hskip] at h
    obtain ⟨s, after, hr, h⟩ := Result.andThen_eq_ok h
    obtain ⟨_, hend, -⟩ := Result.map_eq_ok h
    obtain rfl := statementEnd_eq_ok hend
    exact Nat.lt_of_lt_of_le (Reply.length_lt_of_result (Result.mapError_eq_ok hr))
      (length_lt_of_skipSeparators hskip)

theorem statementsRound_done {ss : List Statement}
    (h : statementsRound lastLine before ts = .ok (.done ss) rest) : rest = [] := by
  unfold statementsRound at h
  cases hskip : skipSeparators ts with
  | nil =>
    rw [hskip] at h
    cases h
    rfl
  | cons t left =>
    rw [hskip] at h
    obtain ⟨s, after, -, h⟩ := Result.andThen_eq_ok h
    obtain ⟨_, -, e⟩ := Result.map_eq_ok h
    cases e

/-- The statements of a program are those before a round, the one it reads and those after it. -/
theorem statements_eq_round (lastLine : Nat) (before : List Statement) (ts : List Token) :
    (statements lastLine ts).map (before ++ ·) =
      match statementsRound lastLine before ts with
      | .fail e _ => .error e
      | .ok (.done ss) _ => .ok ss
      | .ok (.again before') rest => (statements lastLine rest).map (before' ++ ·) := by
  rw [statements_eq, statementsRound]
  cases skipSeparators ts with
  | nil => simp [Except.map]
  | cons t rest =>
    dsimp only
    cases (statement (t :: rest)).result with
    | fail e after => rfl
    | ok s after =>
      simp only [Result.mapError, Result.andThen_ok, statementEnd]
      cases afterStatement false after with
      | some e => rfl
      | none =>
        dsimp only [Result.map_ok]
        cases statements lastLine after with
        | error e => rfl
        | ok ss => simp [Except.map]

end

/-- Reading a program comes to an end, with the outcome that the bounded routines have, and a
success leaves no token. -/
theorem exists_program (ts : List Token) :
    ∃ r, Finishes (parse · .program) ts r ∧ r.outcome = program ts ∧
      ∀ ss rest, r = .ok ss rest → rest = [] := by
  have hloop : ∃ r, Finishes (parse · (.loop (.program (lastLine ts)) [])) ts r ∧
      r.outcome = (statements (lastLine ts) ts).map ([] ++ ·) ∧
      ∀ ss rest, r = .ok ss rest → rest = [] := by
    refine Finishes.exists_loop (fun before ts _ => statements_round _ before ts)
      (fun _ _ _ _ => statementsRound_shorter)
      (P := fun before us r => r.outcome = (statements (lastLine ts) us).map (before ++ ·) ∧
        ∀ ss rest, r = .ok ss rest → rest = [])
      ?_ ?_ ?_ [] ts (Nat.lt_succ_self _)
    · intro before us ss rest hr
      rw [statements_eq_round, hr]
      refine ⟨rfl, fun _ _ e => ?_⟩
      cases e
      exact statementsRound_done hr
    · intro before us e rest hr
      rw [statements_eq_round, hr]
      exact ⟨rfl, fun _ _ e => by cases e⟩
    · intro before us before' rest r hr hrest
      rw [statements_eq_round, hr]
      exact hrest
  obtain ⟨r, h, hr, hrest⟩ := hloop
  refine ⟨r, .call (.step (.get ts) h), ?_, hrest⟩
  rw [hr, program]
  cases statements (lastLine ts) ts <;> rfl

/-! All routines and loops. -/

theorem Follows.consumes {p : Routine α} {r : Reader α n} (h : Follows p r) {ts : List Token}
    (hts : ts.length < n) : Consumes (parse · p) ts (run r ts) :=
  ⟨h ts hts, fun _ _ => length_lt_of_run⟩

theorem block_consumes (line : Nat) (ts : List Token) :
    Consumes (parse · (.block line)) ts (block line ts).result := by
  have hts := Nat.lt_succ_self ts.length
  have hblock : (block line ts).result = run (blockWith (innerStatement (ts.length + 1)) line) ts :=
    (run_eq _ hts).symm
  rw [hblock]
  refine ⟨block_follows line (statement_follows _) ts hts, fun s rest h => ?_⟩
  rw [← blockFrom_nil line hts] at h
  exact length_lt_of_blockFrom line hts h

theorem exists_items_round (item : Item α) (close : Symbol) (missing : ParseCause) (line : Nat)
    (before : List α) (ts : List Token) :
    ∃ r, Consumes (parse · (.round (.items item close missing line) before)) ts r := by
  have hitem : ∃ reader : Reader α (ts.length + 1), Follows item.routine reader := by
    cases item with
    | expression => exact ⟨_, expression_follows _⟩
    | row => exact ⟨_, row_follows (expression_follows _)⟩
  obtain ⟨reader, hitem⟩ := hitem
  exact ⟨_, items_round close missing line hitem before ts (Nat.lt_succ_self _),
    fun _ _ => itemsRound_shorter close missing line⟩

theorem exists_block_round (line : Nat) (before : List Statement) (ts : List Token) :
    ∃ r, Consumes (parse · (.round (.block line) before)) ts r :=
  ⟨_, block_round line (statement_follows _) before ts (Nat.lt_succ_self _),
    fun _ _ => blockRound_shorter line⟩

theorem operators_round_advances (level : Level) (left : Expr) (ts : List Token) :
    Advances (parse · (.round (.operators level) left)) ts := by
  have hoperand : ∃ operand : Reader Expr (ts.length + 1), Follows level.operand operand := by
    cases level with
    | additive => exact ⟨_, multiplicative_follows (expression_follows _)⟩
    | multiplicative => exact ⟨_, unary_follows (expression_follows _)⟩
  obtain ⟨operand, hoperand⟩ := hoperand
  exact ⟨_, operators_round hoperand left ts (Nat.lt_succ_self _),
    fun _ _ => chainRound_shorter⟩

theorem program_round_advances (lastLine : Nat) (before : List Statement) (ts : List Token) :
    Advances (parse · (.round (.program lastLine) before)) ts :=
  ⟨_, statements_round lastLine before ts, fun _ _ => statementsRound_shorter⟩

/-- On every list of tokens each routine comes to an end, with the result of the bounded one. It
leaves a suffix of the list, a proper one when it succeeds; a program that is read leaves nothing.
The rounds of the loops do the same, only the last round of a chain of operators or of a program
may take no token. -/
theorem routines_consume (ts : List Token) :
    Consumes (parse · .expression) ts (expression ts).result ∧
    Consumes (parse · .additive) ts (additive ts).result ∧
    Consumes (parse · .multiplicative) ts (multiplicative ts).result ∧
    Consumes (parse · .unary) ts (run (unary (innerExpression ts.length)) ts) ∧
    Consumes (parse · .primary) ts (run (primary (innerExpression ts.length)) ts) ∧
    Consumes (parse · .statement) ts (statement ts).result ∧
    (∀ line, Consumes (parse · (.block line)) ts (block line ts).result) ∧
    (∃ r, Finishes (parse · .program) ts r ∧ r.outcome = program ts ∧
      ∀ ss rest, r = .ok ss rest → rest = []) ∧
    (∀ {α : Type} (item : Item α) close missing line before,
      ∃ r, Consumes (parse · (.round (.items item close missing line) before)) ts r) ∧
    (∀ line before, ∃ r, Consumes (parse · (.round (.block line) before)) ts r) ∧
    (∀ level left, Advances (parse · (.round (.operators level) left)) ts) ∧
    ∀ lastLine before, Advances (parse · (.round (.program lastLine) before)) ts := by
  have hts := Nat.lt_succ_self ts.length
  have hinner := expression_follows ts.length
  refine ⟨⟨expression_finishes ts, fun _ _ => Reply.length_lt_of_result⟩, ?_, ?_,
    (unary_follows hinner).consumes hts, (primary_follows hinner).consumes hts,
    ⟨statement_finishes ts, fun _ _ => Reply.length_lt_of_result⟩,
    fun line => block_consumes line ts, exists_program ts,
    fun item close missing line before => exists_items_round item close missing line before ts,
    fun line before => exists_block_round line before ts,
    fun level left => operators_round_advances level left ts,
    fun lastLine before => program_round_advances lastLine before ts⟩
  · have h := (additive_follows hinner).consumes hts
    rwa [run_eq _ hts] at h
  · have h := (multiplicative_follows hinner).consumes hts
    rwa [run_eq _ hts] at h

/-- Calls may be nested too deep for a limit, but not for every one. -/
example : exec (parse 5 .expression) [⟨.identifier "x", 1⟩, ⟨.newLine, 1⟩] = none ∧
    exec (parse 10 .expression) [⟨.identifier "x", 1⟩, ⟨.newLine, 1⟩] =
      some (.ok (.var "x" 1) [⟨.newLine, 1⟩]) := by
  constructor <;> rfl

end ExactLinear.Parser
