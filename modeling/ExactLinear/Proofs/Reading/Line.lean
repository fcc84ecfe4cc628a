import ExactLinear.Proofs.Reading.Run

/- Lines do not matter to what is read. A routine that is given tokens with their
   lines changed by `f` consumes as many of them and returns the same value with
   its lines changed by `f`, or the same error on the changed line (`Relabels`).

   A routine that meets the end of its tokens reports it on whatever line it has
   at hand, so of such errors nothing is said until `statements` replaces their
   line by that of the last token. -/
namespace ExactLinear

variable {α β : Type} {f : Nat → Nat}

def Token.mapLine (f : Nat → Nat) (t : Token) : Token := ⟨t.symbol, f t.line⟩

@[simp] theorem Token.symbol_mapLine (f : Nat → Nat) (t : Token) :
    (t.mapLine f).symbol = t.symbol := rfl

@[simp] theorem Token.line_mapLine (f : Nat → Nat) (t : Token) :
    (t.mapLine f).line = f t.line := rfl

def ParseError.mapLine (f : Nat → Nat) (e : ParseError) : ParseError := ⟨e.cause, f e.line⟩

@[simp] theorem ParseError.isIncomplete_mapLine (f : Nat → Nat) (e : ParseError) :
    (e.mapLine f).isIncomplete = e.isIncomplete := rfl

/-- The second result is the first one with its lines changed by `f`, those in the value by `view`;
the lines of errors about the end may be any. -/
inductive Result.Relabelled (f : Nat → Nat) (view : α → α) : Result α → Result α → Prop
  | ok (value : α) (rest : List Token) :
      Relabelled f view (.ok value rest) (.ok (view value) (rest.map (Token.mapLine f)))
  | fail (e : ParseError) (rest : List Token) :
      Relabelled f view (.fail e rest) (.fail (e.mapLine f) (rest.map (Token.mapLine f)))
  | ended (line line' : Nat) (rest : List Token) :
      Relabelled f view (.fail ⟨.endOfInput, line⟩ rest)
        (.fail ⟨.endOfInput, line'⟩ (rest.map (Token.mapLine f)))

namespace Result.Relabelled
variable {view : α → α} {view' : β → β} {r r' : Result α}

theorem map (h : Relabelled f view r r') {g g' : α → β}
    (hg : ∀ value rest, r = .ok value rest → view' (g value) = g' (view value)) :
    Relabelled f view' (r.map g) (r'.map g') := by
  cases h with
  | ok value rest =>
    rw [map_ok, map_ok, ← hg value rest rfl]
    exact .ok ..
  | fail e rest => exact .fail ..
  | ended line line' rest => exact .ended ..

theorem andThen (h : Relabelled f view r r') {g g' : α → List Token → Result β}
    (hg : ∀ value rest, r = .ok value rest →
      Relabelled f view' (g value rest) (g' (view value) (rest.map (Token.mapLine f)))) :
    Relabelled f view' (r.andThen g) (r'.andThen g') := by
  cases h with
  | ok value rest => exact hg value rest rfl
  | fail e rest => exact .fail ..
  | ended line line' rest => exact .ended ..

end Result.Relabelled

namespace Reading
variable {n : Nat} {k k' : List Token → Nat}

/-- Given tokens with their lines changed by `f`, the routine `r'` does what `r` does with the
unchanged ones. -/
def Relabels (f : Nat → Nat) (view : α → α)
    (r : (ts : List Token) → ts.length < n → Reply α (k ts))
    (r' : (ts : List Token) → ts.length < n → Reply α (k' ts)) : Prop :=
  ∀ ts, Result.Relabelled f view (run r ts) (run r' (ts.map (Token.mapLine f)))

/-- On a list that is too long for them two routines do the same. -/
theorem relabels_of_lt {view : α → α} {r : (ts : List Token) → ts.length < n → Reply α (k ts)}
    {r' : (ts : List Token) → ts.length < n → Reply α (k' ts)}
    (h : ∀ ts, ts.length < n → (ts.map (Token.mapLine f)).length < n →
      Result.Relabelled f view (run r ts) (run r' (ts.map (Token.mapLine f)))) :
    Relabels f view r r' := by
  intro ts
  have hlength : (ts.map (Token.mapLine f)).length = ts.length := List.length_map _
  by_cases hts : ts.length < n
  · exact h ts hts (hlength ▸ hts)
  · rw [run, dif_neg hts, run, dif_neg (hlength ▸ hts)]
    exact .ended ..

/-! Separators. -/

theorem skipNewLines_map (f : Nat → Nat) (ts : List Token) :
    skipNewLines (ts.map (Token.mapLine f)) = (skipNewLines ts).map (Token.mapLine f) := by
  fun_induction skipNewLines ts with
  | case1 => rfl
  | case2 t rest ht ih => simp [skipNewLines, ht, ih]
  | case3 t rest ht => simp [skipNewLines, ht]

theorem skipSeparators_map (f : Nat → Nat) (ts : List Token) :
    skipSeparators (ts.map (Token.mapLine f)) = (skipSeparators ts).map (Token.mapLine f) := by
  fun_induction skipSeparators ts with
  | case1 => rfl
  | case2 t rest ht ih => simp [skipSeparators, ht, ih]
  | case3 t rest ht => simp [skipSeparators, ht]

/-! Lists. -/

section
variable {view : α → α} {item item' : Reader α n}

theorem items_relabels (hitem : Relabels f view item item') (close : Symbol)
    (missing : ParseCause) (line : Nat) :
    Relabels f (List.map view) (items close missing line item)
      (items close missing (f line) item') := by
  refine relabels_of_lt fun ts hts hts' => ?_
  induction hsize : ts.length using Nat.strongRecOn generalizing ts with
  | ind size ih =>
    subst hsize
    rw [run_items _ _ _ _ hts, run_items _ _ _ _ hts']
    refine (hitem ts).andThen fun value after hr => ?_
    rw [skipNewLines_map]
    cases hskip : skipNewLines after with
    | nil => exact .ended ..
    | cons t rest =>
      simp only [List.map_cons, Token.symbol_mapLine]
      by_cases hcomma : t.symbol = .comma
      · simp only [hcomma, if_true]
        have hshort : (skipNewLines rest).length < ts.length :=
          Nat.lt_of_le_of_lt (skipNewLines_length_le rest)
            (Nat.lt_trans (length_lt_of_skipNewLines hskip) (length_lt_of_run hr))
        have hnext := Nat.lt_trans hshort hts
        rw [skipNewLines_map]
        exact (ih _ hshort _ hnext (by simpa using hnext) rfl).map fun _ _ _ => rfl
      · simp only [hcomma, if_false]
        by_cases hclose : t.symbol = close
        · simp only [hclose, if_true]
          exact .ok [value] rest
        · simp only [hclose, if_false]
          exact .fail ⟨missing, line⟩ rest

theorem listUpTo_relabels (hitem : Relabels f view item item') (close : Symbol)
    (missing : ParseCause) (line : Nat) :
    Relabels f (List.map view) (listUpTo close missing line item)
      (listUpTo close missing (f line) item') := by
  refine relabels_of_lt fun ts hts hts' => ?_
  have hitems := items_relabels hitem close missing line
  rw [run_listUpTo _ _ _ _ hts, run_listUpTo _ _ _ _ hts', skipNewLines_map]
  cases skipNewLines ts with
  | nil => exact hitems []
  | cons t rest =>
    simp only [List.map_cons, Token.symbol_mapLine]
    by_cases hclose : t.symbol = close
    · simp only [hclose, if_true]
      exact .ok [] rest
    · simp only [hclose, if_false]
      exact hitems (t :: rest)

end

/-! Operands. -/

section
variable {inner inner' : Reader Expr n}

theorem row_relabels (hinner : Relabels f (Expr.mapLine f) inner inner') :
    Relabels f (List.map (Expr.mapLine f)) (row inner) (row inner') := by
  refine relabels_of_lt fun ts hts hts' => ?_
  rw [run_row _ hts]
  cases ts with
  | nil =>
    rw [List.map_nil] at hts' ⊢
    rw [run_row _ hts']
    exact .ended 0 0 []
  | cons t rest =>
    rw [List.map_cons] at hts' ⊢
    rw [run_row _ hts']
    simp only [Token.symbol_mapLine, Token.line_mapLine]
    by_cases hopen : t.symbol = .openBracket
    · simp only [hopen, if_true]
      refine (listUpTo_relabels hinner _ _ _ rest).andThen fun es after _ => ?_
      by_cases hes : es = []
      · simp only [hes, List.map_nil, if_true]
        exact .fail ⟨.emptyRow, t.line⟩ after
      · simp only [hes, List.map_eq_nil_iff, if_false]
        exact .ok es after
    · simp only [hopen, if_false]
      exact .fail ⟨.rowExpected t.symbol, t.line⟩ (t :: rest)

theorem matrix_relabels (hinner : Relabels f (Expr.mapLine f) inner inner') (line : Nat) :
    Relabels f (Expr.mapLine f) (matrix inner line) (matrix inner' (f line)) := by
  refine relabels_of_lt fun ts hts hts' => ?_
  rw [run_matrix _ _ hts, run_matrix _ _ hts']
  refine (listUpTo_relabels (row_relabels hinner) _ _ _ ts).andThen fun rows after _ => ?_
  by_cases hrows : rows = []
  · simp only [hrows, List.map_nil, if_true]
    exact .fail ⟨.emptyMatrix, line⟩ after
  · simp only [hrows, List.map_eq_nil_iff, if_false]
    rw [← Expr.mapLine_rows]
    exact .ok (Expr.rows rows line) after

theorem grouping_relabels (hinner : Relabels f (Expr.mapLine f) inner inner') (line : Nat) :
    Relabels f (Expr.mapLine f) (grouping inner line) (grouping inner' (f line)) := by
  refine relabels_of_lt fun ts hts hts' => ?_
  rw [run_grouping _ _ hts, run_grouping _ _ hts']
  refine (hinner ts).andThen fun value after _ => ?_
  rw [skipNewLines_map]
  cases skipNewLines after with
  | nil => exact .ended ..
  | cons t rest =>
    simp only [List.map_cons, Token.symbol_mapLine]
    by_cases hclose : t.symbol = .closeParen
    · simp only [hclose, if_true]
      exact .ok value rest
    · simp only [hclose, if_false]
      exact .fail ⟨.parenExpected, line⟩ rest

theorem call_relabels (hinner : Relabels f (Expr.mapLine f) inner inner') (name : String)
    (line : Nat) :
    Relabels f (Expr.mapLine f) (call inner name line) (call inner' name (f line)) := by
  refine relabels_of_lt fun ts hts hts' => ?_
  rw [run_call _ _ _ hts, run_call _ _ _ hts']
  cases Builtin.ofName? name with
  | none => exact .fail ⟨.unknownFunction name, line⟩ ts
  | some function =>
    exact (listUpTo_relabels hinner _ _ _ ts).map fun es _ _ => Expr.mapLine_call f line function es

theorem named_relabels (hinner : Relabels f (Expr.mapLine f) inner inner') (name : String)
    (line : Nat) :
    Relabels f (Expr.mapLine f) (named inner name line) (named inner' name (f line)) := by
  refine relabels_of_lt fun ts hts hts' => ?_
  rw [run_named _ _ _ hts]
  cases ts with
  | nil =>
    rw [List.map_nil] at hts' ⊢
    rw [run_named _ _ _ hts']
    exact .ok (Expr.var name line) []
  | cons t rest =>
    rw [List.map_cons] at hts' ⊢
    rw [run_named _ _ _ hts']
    simp only [Token.symbol_mapLine]
    by_cases hopen : t.symbol = .openParen
    · simp only [hopen, if_true]
      exact call_relabels hinner name line rest
    · simp only [hopen, if_false]
      exact .ok (Expr.var name line) (t :: rest)

theorem primary_relabels (hinner : Relabels f (Expr.mapLine f) inner inner') :
    Relabels f (Expr.mapLine f) (primary inner) (primary inner') := by
  refine relabels_of_lt fun ts hts hts' => ?_
  rw [run_primary _ hts]
  cases ts with
  | nil =>
    rw [List.map_nil] at hts' ⊢
    rw [run_primary _ hts']
    exact .ended 0 0 []
  | cons t rest =>
    rw [List.map_cons] at hts' ⊢
    rw [run_primary _ hts']
    simp only [Token.symbol_mapLine, Token.line_mapLine]
    cases t.symbol with
    | number q => exact .ok (Expr.literal (.scalar q) t.line) rest
    | identifier name => exact named_relabels hinner name t.line rest
    | openParen => exact grouping_relabels hinner t.line rest
    | openBracket => exact matrix_relabels hinner t.line rest
    | _ => exact .fail ⟨_, t.line⟩ (t :: rest)

/-! Precedence levels. -/

theorem unary_relabels (hinner : Relabels f (Expr.mapLine f) inner inner') :
    Relabels f (Expr.mapLine f) (unary inner) (unary inner') := by
  refine relabels_of_lt fun ts hts hts' => ?_
  have hprimary := primary_relabels hinner
  induction ts with
  | nil =>
    rw [List.map_nil] at hts' ⊢
    rw [run_unary _ hts, run_unary _ hts']
    exact hprimary []
  | cons t rest ih =>
    rw [List.map_cons] at hts' ⊢
    have hrest := ih (Nat.lt_of_succ_lt hts) (Nat.lt_of_succ_lt hts')
    rw [run_unary _ hts, run_unary _ hts']
    simp only [Token.symbol_mapLine, Token.line_mapLine]
    cases t.symbol with
    | newLine => exact hrest
    | minus => exact hrest.map fun operand _ _ => Expr.mapLine_neg f t.line operand
    | _ => exact hprimary (t :: rest)

end

section
variable {accepts : BinaryOp → Bool} {operand operand' : Reader Expr n}

theorem chain_relabels (hoperand : Relabels f (Expr.mapLine f) operand operand') (left : Expr) :
    Relabels f (Expr.mapLine f) (chain accepts operand left)
      (chain accepts operand' (left.mapLine f)) := by
  refine relabels_of_lt fun ts hts hts' => ?_
  induction hsize : ts.length using Nat.strongRecOn generalizing ts left with
  | ind size ih =>
    subst hsize
    rw [run_chain _ _ _ hts, run_chain _ _ _ hts']
    cases ts with
    | nil => exact .ok left []
    | cons t rest =>
      simp only [List.map_cons, operatorAt?, Token.symbol_mapLine, Token.line_mapLine]
      cases t.symbol.operator?.filter accepts with
      | none => exact .ok left (t :: rest)
      | some op =>
        refine (hoperand rest).andThen fun right after hr => ?_
        have hshort : after.length < (t :: rest).length := Nat.lt_succ_of_lt (length_lt_of_run hr)
        have hafter := Nat.lt_trans hshort hts
        exact ih _ hshort (.binary op left right t.line) after hafter (by simpa using hafter) rfl

theorem leftAssociative_relabels (hoperand : Relabels f (Expr.mapLine f) operand operand') :
    Relabels f (Expr.mapLine f) (leftAssociative accepts operand)
      (leftAssociative accepts operand') := by
  refine relabels_of_lt fun ts hts hts' => ?_
  rw [run_leftAssociative _ _ hts, run_leftAssociative _ _ hts']
  exact (hoperand ts).andThen fun left after _ => chain_relabels hoperand left after

end

theorem innerExpression_relabels (f : Nat → Nat) (n : Nat) :
    Relabels f (Expr.mapLine f) (innerExpression n) (innerExpression n) := by
  induction n using Nat.strongRecOn with
  | ind n ih =>
    refine relabels_of_lt fun ts hts hts' => ?_
    rw [run_innerExpression hts, result_expression, run_innerExpression hts', result_expression,
      List.length_map]
    exact leftAssociative_relabels (leftAssociative_relabels (unary_relabels (ih _ hts))) ts

theorem expression_relabelled (f : Nat → Nat) (ts : List Token) :
    Result.Relabelled f (Expr.mapLine f) (expression ts).result
      (expression (ts.map (Token.mapLine f))).result := by
  have hts := Nat.lt_succ_self ts.length
  have hts' : (ts.map (Token.mapLine f)).length < ts.length + 1 := by simp
  rw [← run_innerExpression hts, ← run_innerExpression hts']
  exact innerExpression_relabels f _ ts

/-! Statements. -/

/-- At the end the error is on no line of a token. -/
theorem afterStatement_map (f : Nat → Nat) (inBlock : Bool) (t : Token) (ts : List Token) :
    afterStatement inBlock ((t :: ts).map (Token.mapLine f)) =
      (afterStatement inBlock (t :: ts)).map (ParseError.mapLine f) := by
  simp only [List.map_cons, afterStatement, Token.symbol_mapLine, Token.line_mapLine]
  by_cases hseparator : t.symbol.isSeparator = true
  · simp [hseparator]
  · by_cases hbrace : inBlock = true ∧ t.symbol = .closeBrace
    · simp [hbrace]
    · simp only [hseparator, hbrace, if_false]
      rfl

theorem body_relabels {inner inner' : Reader Statement n}
    (hinner : Relabels f (Statement.mapLine f) inner inner') (line : Nat) :
    Relabels f (List.map (Statement.mapLine f)) (body inner line) (body inner' (f line)) := by
  refine relabels_of_lt fun ts hts hts' => ?_
  induction hsize : ts.length using Nat.strongRecOn generalizing ts with
  | ind size ih =>
    subst hsize
    rw [run_body _ _ hts, run_body _ _ hts', skipSeparators_map]
    cases hskip : skipSeparators ts with
    | nil => exact .ended ..
    | cons t rest =>
      simp only [List.map_cons, Token.symbol_mapLine]
      by_cases hclose : t.symbol = .closeBrace
      · simp only [hclose, if_true]
        exact .ok [] rest
      · simp only [hclose, if_false]
        refine (hinner (t :: rest)).andThen fun s after hr => ?_
        cases after with
        | nil => exact .ended ..
        | cons u us =>
          rw [afterStatement_map]
          cases afterStatement true (u :: us) with
          | some e => exact .fail e (u :: us)
          | none =>
            have hshort : (u :: us).length < ts.length :=
              Nat.lt_of_lt_of_le (length_lt_of_run hr) (length_lt_of_skipSeparators hskip)
            have hafter := Nat.lt_trans hshort hts
            exact (ih _ hshort (u :: us) hafter (by simpa using hafter) rfl).map fun _ _ _ => rfl

theorem isAssignment_map (f : Nat → Nat) (ts : List Token) :
    IsAssignment (ts.map (Token.mapLine f)) ↔ IsAssignment ts := by
  refine ⟨?_, ?_⟩
  · rintro ⟨name, line, equalsLine, rest, h⟩
    obtain ⟨t, us, rfl, ht, hus⟩ := List.map_eq_cons_iff.mp h
    obtain ⟨u, us, rfl, hu, -⟩ := List.map_eq_cons_iff.mp hus
    obtain ⟨symbol, line'⟩ := t
    obtain ⟨symbol', equalsLine'⟩ := u
    cases ht
    cases hu
    exact ⟨name, line', equalsLine', us, rfl⟩
  · rintro ⟨name, line, equalsLine, rest, rfl⟩
    exact ⟨name, f line, f equalsLine, rest.map (Token.mapLine f), rfl⟩

theorem simpleStatement_relabelled (f : Nat → Nat) (ts : List Token) :
    Result.Relabelled f (Statement.mapLine f) (simpleStatement ts).result
      (simpleStatement (ts.map (Token.mapLine f))).result := by
  by_cases hassign : IsAssignment ts
  · obtain ⟨name, line, equalsLine, rest, rfl⟩ := hassign
    show Result.Relabelled f (Statement.mapLine f) _
      (simpleStatement (⟨.identifier name, f line⟩ :: ⟨.equals, f equalsLine⟩ ::
        rest.map (Token.mapLine f))).result
    rw [result_simpleStatement_assign, result_simpleStatement_assign]
    by_cases hname : name ∈ Builtin.reserved
    · simp only [hname, if_true]
      exact .fail ⟨.reserved name, line⟩
        (⟨.identifier name, line⟩ :: ⟨.equals, equalsLine⟩ :: rest)
    · simp only [hname, if_false]
      exact (expression_relabelled f rest).map fun e _ _ => Statement.mapLine_assign f line name e
  · have hassign' : ¬IsAssignment (ts.map (Token.mapLine f)) :=
      fun h => hassign ((isAssignment_map f ts).mp h)
    rw [result_simpleStatement hassign, result_simpleStatement hassign']
    refine (expression_relabelled f ts).map fun e rest h => ?_
    cases ts with
    | nil => exact absurd (Reply.length_lt_of_result h) (Nat.not_lt_zero _)
    | cons t ts => exact Statement.mapLine_evaluate f t.line e

theorem innerStatement_relabels (f : Nat → Nat) (n : Nat) :
    Relabels f (Statement.mapLine f) (innerStatement n) (innerStatement n) := by
  induction n using Nat.strongRecOn with
  | ind n ih =>
    refine relabels_of_lt fun ts hts hts' => ?_
    rw [run_innerStatement hts, result_statement, run_innerStatement hts', result_statement]
    have hsimple := simpleStatement_relabelled f ts
    cases ts with
    | nil => exact hsimple
    | cons t rest =>
      simp only [List.map_cons, braceAt?, Token.symbol_mapLine, Token.line_mapLine]
      by_cases hbrace : t.symbol = .openBrace
      · simp only [hbrace, if_true]
        rw [List.length_map]
        exact (body_relabels (ih _ hts) t.line rest).map fun ss _ _ =>
          Statement.mapLine_block f t.line ss
      · simp only [hbrace, if_false]
        exact hsimple

theorem statement_relabelled (f : Nat → Nat) (ts : List Token) :
    Result.Relabelled f (Statement.mapLine f) (statement ts).result
      (statement (ts.map (Token.mapLine f))).result := by
  have hts := Nat.lt_succ_self ts.length
  have hts' : (ts.map (Token.mapLine f)).length < ts.length + 1 := by simp
  rw [← run_innerStatement hts, ← run_innerStatement hts']
  exact innerStatement_relabels f _ ts

/-- The outcome of reading a program, with its lines changed. -/
abbrev mapOutcome (f : Nat → Nat) (r : Except ParseError (List Statement)) :
    Except ParseError (List Statement) :=
  (r.map (List.map (Statement.mapLine f))).mapError (ParseError.mapLine f)

theorem statements_map (f : Nat → Nat) (last : Nat) (ts : List Token) :
    statements (f last) (ts.map (Token.mapLine f)) = mapOutcome f (statements last ts) := by
  induction hsize : ts.length using Nat.strongRecOn generalizing ts with
  | ind size ih =>
    subst hsize
    rw [statements_eq, statements_eq, skipSeparators_map]
    cases hskip : skipSeparators ts with
    | nil => rfl
    | cons t rest =>
      have hstatement := statement_relabelled f (t :: rest)
      rw [List.map_cons] at hstatement ⊢
      dsimp only
      generalize hr : (statement (t :: rest)).result = r at hstatement ⊢
      generalize (statement (t.mapLine f :: rest.map (Token.mapLine f))).result = r'
        at hstatement ⊢
      cases hstatement with
      | fail e after =>
        by_cases hend : e.isIncomplete = true
        · simp only [ParseError.isIncomplete_mapLine, hend, if_true]
          rfl
        · simp only [ParseError.isIncomplete_mapLine, hend]
          rfl
      | ended line line' after => rfl
      | ok s after =>
        have hafter : afterStatement false (after.map (Token.mapLine f)) =
            (afterStatement false after).map (ParseError.mapLine f) := by
          cases after with
          | nil => rfl
          | cons u us => exact afterStatement_map f false u us
        have hshort : after.length < ts.length :=
          Nat.lt_of_lt_of_le (Reply.length_lt_of_result hr) (length_lt_of_skipSeparators hskip)
        dsimp only
        rw [hafter, ih _ hshort after rfl]
        cases afterStatement false after with
        | some e => rfl
        | none => cases statements last after <;> rfl

theorem lastLine_map (f : Nat → Nat) {ts : List Token} (hts : ts ≠ []) :
    lastLine (ts.map (Token.mapLine f)) = f (lastLine ts) := by
  simp [lastLine, List.getLast?_map, List.getLast?_eq_some_getLast hts]

end Reading

/-- Tokens with their lines changed are read as the same program with its lines changed, or fail
for the same reason on the changed line. -/
theorem program_mapLine (f : Nat → Nat) (ts : List Token) :
    program (ts.map (Token.mapLine f)) =
      ((program ts).map (List.map (Statement.mapLine f))).mapError (ParseError.mapLine f) := by
  by_cases hts : ts = []
  · rw [hts, List.map_nil, program, Reading.statements_nil]
    rfl
  · rw [program, program, Reading.lastLine_map f hts, Reading.statements_map]

end ExactLinear
