import ExactLinear.Proofs.Reading.Program

/- More tokens behind the ones that were read. A routine that has decided about a
   list, that is, succeeded or failed for another reason than the end, decides the
   same when more tokens follow. Of a routine that would have gone on, had the list
   not ended, this holds only where it left a token. The first are those that a
   bracket or a brace closes, the others are expressions and statements
   (`Extends`, for results that are `Decided` and for those that are `Settled`). -/
namespace ExactLinear

open Grammar

variable {α β : Type}

namespace Result

/-- The same result, with more tokens left. -/
def append (more : List Token) : Result α → Result α
  | ok value rest => ok value (rest ++ more)
  | fail e rest => fail e (rest ++ more)

/-- It is not the end of the tokens that is wrong. -/
def Decided : Result α → Prop
  | ok _ _ => True
  | fail e _ => e.cause ≠ .endOfInput

/-- Moreover, a success left a token. -/
def Settled : Result α → Prop
  | ok _ rest => rest ≠ []
  | fail e _ => e.cause ≠ .endOfInput

section
variable {more : List Token} {r : Result α} {f : α → List Token → Result β}

theorem Settled.decided (h : r.Settled) : r.Decided := by
  cases r with
  | ok value rest => trivial
  | fail e rest => exact h

theorem append_map (g : α → β) : (r.map g).append more = (r.append more).map g := by
  cases r <;> rfl

theorem decided_map (g : α → β) : (r.map g).Decided ↔ r.Decided := by
  cases r <;> rfl

theorem settled_map (g : α → β) : (r.map g).Settled ↔ r.Settled := by
  cases r <;> rfl

theorem Decided.of_andThen (h : (r.andThen f).Decided) : r.Decided := by
  cases r with
  | ok value rest => trivial
  | fail e rest => exact h

/-- What goes on from the end alone decides nothing there, so a token was left before. -/
theorem settled_of_andThen {P : Result β → Prop} (h : P (r.andThen f))
    (hP : ∀ r, P r → r.Decided) (hnil : ∀ value, ¬P (f value [])) : r.Settled := by
  cases r with
  | ok value rest =>
    rintro rfl
    exact hnil value h
  | fail e rest => exact hP _ h

theorem append_andThen {f' : α → List Token → Result β} {P : Result β → Prop}
    (hf : ∀ value rest, r = .ok value rest → P (f value rest) →
      f' value (rest ++ more) = (f value rest).append more)
    (h : P (r.andThen f)) :
    (r.append more).andThen f' = (r.andThen f).append more := by
  cases r with
  | ok value rest => exact hf value rest rfl h
  | fail e rest => rfl

end

end Result

namespace Reading
variable {m n : Nat} {k l : List Token → Nat} {more : List Token}

/-- Where the result of `r` is of the kind `P`, the result of `r'` on a list with `more` behind
it is the same with `more` left. -/
def Extends (P : Result α → Prop) (more : List Token)
    (r : (ts : List Token) → ts.length < n → Reply α (k ts))
    (r' : (ts : List Token) → ts.length < m → Reply α (l ts)) : Prop :=
  ∀ ts, (ts ++ more).length < m → P (run r ts) → run r' (ts ++ more) = (run r ts).append more

section
variable {r : (ts : List Token) → ts.length < n → Reply α (k ts)}
  {r' : (ts : List Token) → ts.length < m → Reply α (l ts)}

theorem Extends.settled (h : Extends Result.Decided more r r') :
    Extends Result.Settled more r r' :=
  fun ts hlen hr => h ts hlen hr.decided

/-- A list that is too long for a routine is not decided about. -/
theorem lt_of_decided {ts : List Token} (h : (run r ts).Decided) : ts.length < n := by
  rcases Nat.lt_or_ge ts.length n with hlen | hlen
  · exact hlen
  · rw [run, dif_neg (Nat.not_lt.mpr hlen)] at h
    exact absurd rfl h

end

/-! Separators. -/

theorem skipNewLines_extend {ts rest : List Token} {t : Token} (h : skipNewLines ts = t :: rest) :
    skipNewLines (ts ++ more) = t :: (rest ++ more) := by
  fun_induction skipNewLines ts with
  | case1 => cases h
  | case2 u us hu ih => rw [List.cons_append, skipNewLines, if_pos hu, ih h]
  | case3 u us hu =>
    cases h
    exact skipNewLines_cons hu _

theorem skipSeparators_extend {ts rest : List Token} {t : Token}
    (h : skipSeparators ts = t :: rest) : skipSeparators (ts ++ more) = t :: (rest ++ more) := by
  fun_induction skipSeparators ts with
  | case1 => cases h
  | case2 u us hu ih => rw [List.cons_append, skipSeparators, if_pos hu, ih h]
  | case3 u us hu =>
    cases h
    exact skipSeparators_cons (by simpa using hu) _

/-! Lists. -/

section
variable {close : Symbol} {missing : ParseCause} {line : Nat} {item : Reader α n}
  {item' : Reader α m}

theorem not_decided_items_nil (hnil : ¬(run item []).Decided) :
    ¬(run (items close missing line item) []).Decided := by
  intro h
  rw [run_items _ _ _ _ (lt_of_decided h)] at h
  exact hnil h.of_andThen

theorem items_extends (hitem : Extends Result.Settled more item item')
    (hnil : ¬(run item []).Decided) :
    Extends Result.Decided more (items close missing line item)
      (items close missing line item') := by
  intro ts hlen h
  have hts := lt_of_decided h
  induction hsize : ts.length using Nat.strongRecOn generalizing ts with
  | ind size ih =>
    subst hsize
    rw [run_items _ _ _ _ hts] at h ⊢
    rw [run_items _ _ _ _ hlen]
    -- Behind an item that took all tokens the end would be missed.
    have hsettled := Result.settled_of_andThen (P := Result.Decided) h (fun _ => id)
      fun _ hv => hv rfl
    rw [hitem ts hlen hsettled]
    refine Result.append_andThen (P := Result.Decided) ?_ h
    intro value after hr hdecided
    cases hskip : skipNewLines after with
    | nil =>
      rw [hskip] at hdecided
      exact absurd rfl hdecided
    | cons t rest =>
      rw [skipNewLines_extend hskip]
      simp only [hskip] at hdecided ⊢
      by_cases hcomma : t.symbol = .comma
      · simp only [hcomma, if_true] at hdecided ⊢
        rw [Result.decided_map] at hdecided
        have hshort : (skipNewLines rest).length < ts.length :=
          Nat.lt_of_le_of_lt (skipNewLines_length_le rest)
            (Nat.lt_trans (length_lt_of_skipNewLines hskip) (length_lt_of_run hr))
        have hnext := ih _ hshort (skipNewLines rest) (by simp at hlen ⊢; omega) hdecided
          (Nat.lt_trans hshort hts) rfl
        -- Likewise behind a comma at the end.
        cases hrest : skipNewLines rest with
        | nil =>
          rw [hrest] at hdecided
          exact absurd hdecided (not_decided_items_nil hnil)
        | cons u us =>
          rw [skipNewLines_extend hrest, ← List.cons_append, ← hrest, hnext, Result.append_map]
      · simp only [hcomma, if_false]
        split <;> rfl

theorem listUpTo_extends (hitem : Extends Result.Settled more item item')
    (hnil : ¬(run item []).Decided) :
    Extends Result.Decided more (listUpTo close missing line item)
      (listUpTo close missing line item') := by
  intro ts hlen h
  have hts := lt_of_decided h
  rw [run_listUpTo _ _ _ _ hts] at h ⊢
  rw [run_listUpTo _ _ _ _ hlen]
  cases hskip : skipNewLines ts with
  | nil =>
    rw [hskip] at h
    exact absurd h (not_decided_items_nil hnil)
  | cons t rest =>
    rw [skipNewLines_extend hskip]
    simp only [hskip] at h ⊢
    split
    · rfl
    · next hclose =>
      rw [if_neg hclose] at h
      have hrest := length_lt_of_skipNewLines hskip
      exact items_extends hitem hnil (t :: rest) (by simp at hlen ⊢; omega) h

end

/-! Operands. -/

section
variable {inner : Reader Expr n} {inner' : Reader Expr m}

theorem not_decided_row_nil : ¬(run (row inner) []).Decided := by
  intro h
  rw [run_row _ (lt_of_decided h)] at h
  exact h rfl

theorem row_extends (hinner : Extends Result.Settled more inner inner')
    (hnil : ¬(run inner []).Decided) :
    Extends Result.Decided more (row inner) (row inner') := by
  intro ts hlen h
  have hts := lt_of_decided h
  rw [run_row _ hts] at h ⊢
  rw [run_row _ hlen]
  cases ts with
  | nil => exact absurd rfl h
  | cons t rest =>
    simp only [List.cons_append] at h ⊢
    split
    · next hopen =>
      rw [if_pos hopen] at h
      rw [listUpTo_extends hinner hnil rest (Nat.lt_of_succ_lt hlen) h.of_andThen]
      refine Result.append_andThen (P := Result.Decided) ?_ h
      intro es after _ _
      split <;> rfl
    · rfl

theorem matrix_extends (hinner : Extends Result.Settled more inner inner')
    (hnil : ¬(run inner []).Decided) (line : Nat) :
    Extends Result.Decided more (matrix inner line) (matrix inner' line) := by
  intro ts hlen h
  have hts := lt_of_decided h
  rw [run_matrix _ _ hts] at h ⊢
  rw [run_matrix _ _ hlen,
    listUpTo_extends (row_extends hinner hnil).settled not_decided_row_nil ts hlen h.of_andThen]
  refine Result.append_andThen (P := Result.Decided) ?_ h
  intro rows after _ _
  split <;> rfl

theorem grouping_extends (hinner : Extends Result.Settled more inner inner') (line : Nat) :
    Extends Result.Decided more (grouping inner line) (grouping inner' line) := by
  intro ts hlen h
  have hts := lt_of_decided h
  rw [run_grouping _ _ hts] at h ⊢
  have hsettled := Result.settled_of_andThen (P := Result.Decided) h (fun _ => id)
    fun _ hv => hv rfl
  rw [run_grouping _ _ hlen, hinner ts hlen hsettled]
  refine Result.append_andThen (P := Result.Decided) ?_ h
  intro value after _ hdecided
  cases hskip : skipNewLines after with
  | nil =>
    rw [hskip] at hdecided
    exact absurd rfl hdecided
  | cons t rest =>
    rw [skipNewLines_extend hskip]
    dsimp only
    split <;> rfl

theorem call_extends (hinner : Extends Result.Settled more inner inner')
    (hnil : ¬(run inner []).Decided) (name : String) (line : Nat) :
    Extends Result.Decided more (call inner name line) (call inner' name line) := by
  intro ts hlen h
  have hts := lt_of_decided h
  rw [run_call _ _ _ hts] at h ⊢
  rw [run_call _ _ _ hlen]
  cases hf : Builtin.ofName? name with
  | none => rfl
  | some f =>
    simp only [hf, Result.decided_map] at h ⊢
    rw [listUpTo_extends hinner hnil ts hlen h, Result.append_map]

/-- At the end, a name could still become a call. -/
theorem named_extends (hinner : Extends Result.Settled more inner inner')
    (hnil : ¬(run inner []).Decided) (name : String) (line : Nat) :
    Extends Result.Settled more (named inner name line) (named inner' name line) := by
  intro ts hlen h
  have hts := lt_of_decided h.decided
  rw [run_named _ _ _ hts] at h ⊢
  rw [run_named _ _ _ hlen]
  cases ts with
  | nil => exact absurd rfl h
  | cons t rest =>
    simp only [List.cons_append] at h ⊢
    split
    · next hopen =>
      rw [if_pos hopen] at h
      exact call_extends hinner hnil name line rest (Nat.lt_of_succ_lt hlen) h.decided
    · rfl

theorem not_decided_primary_nil : ¬(run (primary inner) []).Decided := by
  intro h
  rw [run_primary _ (lt_of_decided h)] at h
  exact h rfl

theorem primary_extends (hinner : Extends Result.Settled more inner inner')
    (hnil : ¬(run inner []).Decided) :
    Extends Result.Settled more (primary inner) (primary inner') := by
  intro ts hlen h
  have hts := lt_of_decided h.decided
  rw [run_primary _ hts] at h ⊢
  rw [run_primary _ hlen]
  cases ts with
  | nil => exact absurd rfl h
  | cons t rest =>
    have hrest : (rest ++ more).length < m := Nat.lt_of_succ_lt_succ hlen
    simp only [List.cons_append] at h ⊢
    cases hs : t.symbol with
    | identifier name =>
      simp only [hs] at h ⊢
      exact named_extends hinner hnil name t.line rest hrest h
    | openParen =>
      simp only [hs] at h ⊢
      exact grouping_extends hinner t.line rest hrest h.decided
    | openBracket =>
      simp only [hs] at h ⊢
      exact matrix_extends hinner hnil t.line rest hrest h.decided
    | _ => rfl

/-! Precedence levels. -/

theorem not_decided_unary_nil : ¬(run (unary inner) []).Decided := by
  intro h
  rw [run_unary _ (lt_of_decided h)] at h
  exact not_decided_primary_nil h

theorem unary_extends (hinner : Extends Result.Settled more inner inner')
    (hnil : ¬(run inner []).Decided) :
    Extends Result.Settled more (unary inner) (unary inner') := by
  intro ts hlen h
  induction ts with
  | nil => exact absurd h.decided not_decided_unary_nil
  | cons t rest ih =>
    have hrest : (rest ++ more).length < m + 1 := Nat.lt_of_succ_lt hlen
    have hts := lt_of_decided h.decided
    rw [run_unary _ hts] at h ⊢
    rw [List.cons_append] at hlen ⊢
    rw [run_unary _ hlen]
    cases hs : t.symbol with
    | newLine =>
      simp only [hs] at h ⊢
      exact ih hrest h
    | minus =>
      simp only [hs, Result.settled_map] at h ⊢
      rw [ih hrest h, Result.append_map]
    | _ =>
      simp only [hs] at h ⊢
      exact primary_extends hinner hnil (t :: rest) hlen h

end

section
variable {accepts : BinaryOp → Bool} {operand : Reader Expr n} {operand' : Reader Expr m}

theorem not_settled_chain_nil (left : Expr) : ¬(run (chain accepts operand left) []).Settled := by
  intro h
  rw [run_chain _ _ _ (lt_of_decided h.decided)] at h
  exact h rfl

theorem chain_extends (hoperand : Extends Result.Settled more operand operand') (left : Expr) :
    Extends Result.Settled more (chain accepts operand left) (chain accepts operand' left) := by
  intro ts hlen h
  have hts := lt_of_decided h.decided
  induction hsize : ts.length using Nat.strongRecOn generalizing ts left with
  | ind size ih =>
    subst hsize
    rw [run_chain _ _ _ hts] at h ⊢
    rw [run_chain _ _ _ hlen]
    cases ts with
    | nil => exact absurd rfl h
    | cons t rest =>
      simp only [List.cons_append, operatorAt?] at h ⊢
      cases hop : t.symbol.operator?.filter accepts with
      | none => rfl
      | some op =>
        simp only [hop, Option.map_some] at h ⊢
        have hsettled := Result.settled_of_andThen (P := Result.Settled) h
          (fun _ => Result.Settled.decided) fun _ => not_settled_chain_nil _
        rw [hoperand rest (Nat.lt_of_succ_lt hlen) hsettled]
        refine Result.append_andThen (P := Result.Settled) ?_ h
        intro right after hr hsettled'
        have hafter : after.length < rest.length := length_lt_of_run hr
        exact ih after.length (Nat.lt_succ_of_lt hafter) _ after (by simp at hlen ⊢; omega)
          hsettled' (lt_of_decided hsettled'.decided) rfl

theorem not_decided_leftAssociative_nil (hnil : ¬(run operand []).Decided) :
    ¬(run (leftAssociative accepts operand) []).Decided := by
  intro h
  rw [run_leftAssociative _ _ (lt_of_decided h)] at h
  exact hnil h.of_andThen

theorem leftAssociative_extends (hoperand : Extends Result.Settled more operand operand') :
    Extends Result.Settled more (leftAssociative accepts operand)
      (leftAssociative accepts operand') := by
  intro ts hlen h
  have hts := lt_of_decided h.decided
  rw [run_leftAssociative _ _ hts] at h ⊢
  have hsettled := Result.settled_of_andThen (P := Result.Settled) h
    (fun _ => Result.Settled.decided) not_settled_chain_nil
  rw [run_leftAssociative _ _ hlen, hoperand ts hlen hsettled]
  refine Result.append_andThen (P := Result.Settled) ?_ h
  intro left after hr hsettled'
  have hafter : after.length < ts.length := length_lt_of_run hr
  exact chain_extends hoperand left after (by simp at hlen ⊢; omega) hsettled'

end

theorem not_decided_expression_nil : ¬(expression []).result.Decided := by
  rw [result_expression]
  exact not_decided_leftAssociative_nil (not_decided_leftAssociative_nil not_decided_unary_nil)

theorem not_decided_innerExpression_nil (n : Nat) : ¬(run (innerExpression n) []).Decided := by
  intro h
  rw [run_innerExpression (lt_of_decided h)] at h
  exact not_decided_expression_nil h

theorem innerExpression_extends (n m : Nat) (more : List Token) :
    Extends Result.Settled more (innerExpression n) (innerExpression m) := by
  induction n using Nat.strongRecOn generalizing m with
  | ind n ih =>
    intro ts hlen h
    have hts := lt_of_decided h.decided
    rw [run_innerExpression hts, result_expression] at h ⊢
    rw [run_innerExpression hlen, result_expression]
    exact leftAssociative_extends (leftAssociative_extends
      (unary_extends (ih _ hts _) (not_decided_innerExpression_nil _))) ts (Nat.lt_succ_self _) h

theorem expression_extends {ts : List Token} (h : (expression ts).result.Settled)
    (more : List Token) :
    (expression (ts ++ more)).result = (expression ts).result.append more := by
  have hlen := Nat.lt_succ_self ts.length
  rw [← run_innerExpression hlen] at h ⊢
  rw [← run_innerExpression (Nat.lt_succ_self _)]
  exact innerExpression_extends _ _ more ts (Nat.lt_succ_self _) h

/-! Statements. -/

theorem afterStatement_extends {ts : List Token} (h : ts ≠ []) (inBlock : Bool) :
    afterStatement inBlock (ts ++ more) = afterStatement inBlock ts := by
  cases ts with
  | nil => exact absurd rfl h
  | cons t ts => rfl

theorem body_extends {inner : Reader Statement n} {inner' : Reader Statement m}
    (hinner : Extends Result.Settled more inner inner') (line : Nat) :
    Extends Result.Decided more (body inner line) (body inner' line) := by
  intro ts hlen h
  have hts := lt_of_decided h
  induction hsize : ts.length using Nat.strongRecOn generalizing ts with
  | ind size ih =>
    subst hsize
    rw [run_body _ _ hts] at h ⊢
    rw [run_body _ _ hlen]
    cases hskip : skipSeparators ts with
    | nil =>
      rw [hskip] at h
      exact absurd rfl h
    | cons t rest =>
      have hrest := length_lt_of_skipSeparators hskip
      rw [skipSeparators_extend hskip]
      simp only [hskip] at h ⊢
      split
      · rfl
      · next hclose =>
        rw [if_neg hclose] at h
        have hsettled := Result.settled_of_andThen (P := Result.Decided) h (fun _ => id)
          fun _ hv => hv rfl
        rw [← List.cons_append, hinner (t :: rest) (by simp at hlen ⊢; omega) hsettled]
        refine Result.append_andThen (P := Result.Decided) ?_ h
        intro s after hr hdecided
        have hafter : after ≠ [] := by
          rw [hr] at hsettled
          exact hsettled
        rw [afterStatement_extends hafter]
        cases hend : afterStatement true after with
        | some e => rfl
        | none =>
          simp only [hend, Result.decided_map] at hdecided ⊢
          have hshort : after.length < (t :: rest).length := length_lt_of_run hr
          rw [ih after.length (Nat.lt_of_lt_of_le hshort hrest) after (by simp at hlen hshort ⊢; omega)
            hdecided (lt_of_decided hdecided) rfl, Result.append_map]

/-- A lone name in front of the end is an expression that leaves nothing, so it is not settled
whether it begins an assignment. -/
theorem isAssignment_of_append {ts : List Token} (hts : ts ≠ [])
    (h : (expression ts).result.Settled) (happend : IsAssignment (ts ++ more)) :
    IsAssignment ts := by
  obtain ⟨name, line, equalsLine, tail, heq⟩ := happend
  match ts with
  | [] => exact absurd rfl hts
  | [t] =>
    obtain ⟨rfl, -⟩ := List.cons.inj heq
    have hstops : Stops [] := by simp [Stops]
    obtain ⟨value, hvalue⟩ := exists_expression_name name line hstops
    rw [hvalue] at h
    exact absurd rfl h
  | t :: u :: us =>
    obtain ⟨rfl, htail⟩ := List.cons.inj heq
    obtain ⟨rfl, -⟩ := List.cons.inj htail
    exact ⟨name, line, equalsLine, us, rfl⟩

theorem simpleStatement_extends {ts : List Token} (h : (simpleStatement ts).result.Settled)
    (more : List Token) :
    (simpleStatement (ts ++ more)).result = (simpleStatement ts).result.append more := by
  by_cases hassign : IsAssignment ts
  · obtain ⟨name, line, equalsLine, rest, rfl⟩ := hassign
    rw [result_simpleStatement_assign] at h ⊢
    simp only [List.cons_append]
    rw [result_simpleStatement_assign]
    split
    · rfl
    · next hname =>
      rw [if_neg hname, Result.settled_map] at h
      rw [expression_extends h, Result.append_map]
  · rw [result_simpleStatement hassign] at h ⊢
    rw [Result.settled_map] at h
    have hts : ts ≠ [] := by
      rintro rfl
      exact not_decided_expression_nil h.decided
    have hfirst : firstLine (ts ++ more) = firstLine ts := by
      cases ts with
      | nil => exact absurd rfl hts
      | cons t ts => rfl
    rw [result_simpleStatement fun ha => hassign (isAssignment_of_append hts h ha), hfirst,
      expression_extends h, Result.append_map]

theorem not_decided_simpleStatement_nil : ¬(simpleStatement []).result.Decided := by
  have hassign : ¬IsAssignment [] := nofun
  rw [result_simpleStatement hassign, Result.decided_map]
  exact not_decided_expression_nil

theorem innerStatement_extends (n m : Nat) (more : List Token) :
    Extends Result.Settled more (innerStatement n) (innerStatement m) := by
  induction n using Nat.strongRecOn generalizing m with
  | ind n ih =>
    intro ts hlen h
    have hts := lt_of_decided h.decided
    rw [run_innerStatement hts, result_statement] at h ⊢
    rw [run_innerStatement hlen, result_statement]
    cases ts with
    | nil => exact absurd h.decided not_decided_simpleStatement_nil
    | cons t rest =>
      simp only [List.cons_append, braceAt?] at h ⊢
      by_cases hbrace : t.symbol = .openBrace
      · simp only [hbrace, if_true, Result.settled_map] at h ⊢
        have hbody := body_extends (ih _ hts (t :: (rest ++ more)).length) t.line rest
          (Nat.lt_succ_self _) h.decided
        rw [Result.append_map, hbody]
      · simp only [hbrace, if_false] at h ⊢
        exact simpleStatement_extends h more

theorem statement_extends {ts : List Token} (h : (statement ts).result.Settled)
    (more : List Token) :
    (statement (ts ++ more)).result = (statement ts).result.append more := by
  have hlen := Nat.lt_succ_self ts.length
  rw [← run_innerStatement hlen] at h ⊢
  rw [← run_innerStatement (Nat.lt_succ_self _)]
  exact innerStatement_extends _ _ more ts (Nat.lt_succ_self _) h

/-- The first statement is the same when tokens are added behind one that it left. -/
theorem statements_append_of_rest {ts rest after : List Token} {t : Token} {s : Statement}
    (hskip : skipSeparators ts = t :: rest) (h : (statement (t :: rest)).result = .ok s after)
    (hafter : after ≠ []) (last : Nat) (more : List Token) :
    statements last (ts ++ more) =
      match afterStatement false after with
      | some e => .error e
      | none => (statements last (after ++ more)).map (s :: ·) := by
  have hsettled : (statement (t :: rest)).result.Settled := by
    rw [h]
    exact hafter
  rw [statements_eq, skipSeparators_extend hskip]
  dsimp only
  rw [← List.cons_append, statement_extends hsettled, h]
  dsimp only [Result.append]
  cases hend : afterStatement false after <;> simp only [afterStatement_extends hafter, hend]

/-- An error that is not about the end stays when tokens are added, whatever line the end is
reported on. -/
theorem statements_error_append {last : Nat} {ts : List Token} {e : ParseError}
    (h : statements last ts = .error e) (he : e.cause ≠ .endOfInput) (last' : Nat)
    (more : List Token) : statements last' (ts ++ more) = .error e := by
  fun_induction statements last ts with
  | case1 => cases h
  | case2 ts t rest hskip error after hr =>
    have hincomplete : error.isIncomplete = false := by
      cases hincomplete : error.isIncomplete with
      | false => rfl
      | true =>
        simp only [hincomplete, if_true] at h
        cases h
        exact absurd rfl he
    obtain rfl : error = e := by simpa [hincomplete] using h
    have hresult : (statement (t :: rest)).result = .fail error after := by
      rw [hr, Reply.result_fail]
    have hsettled : (statement (t :: rest)).result.Settled := by
      rw [hresult]
      exact he
    rw [statements_eq, skipSeparators_extend hskip]
    dsimp only
    rw [← List.cons_append, statement_extends hsettled, hresult]
    simp [Result.append, hincomplete]
  | case3 ts t rest hskip s after shorter hr hafter error hend =>
    have hresult : (statement (t :: rest)).result = .ok s after := by rw [hr, Reply.result_ok]
    have hne : after ≠ [] := by
      rintro rfl
      cases hend
    rw [statements_append_of_rest hskip hresult hne, hend]
    exact h
  | case4 => cases h
  | case5 ts t rest hskip s after shorter hr hafter hend error hrec ih =>
    have hresult : (statement (t :: rest)).result = .ok s after := by rw [hr, Reply.result_ok]
    have hne : after ≠ [] := by
      rintro rfl
      rw [statements_nil] at hrec
      cases hrec
    cases h
    rw [statements_append_of_rest hskip hresult hne, hend, ih hrec]
    rfl

end Reading

theorem program_error_append {ts : List Token} {e : ParseError} (h : program ts = .error e)
    (he : e.cause ≠ .endOfInput) (more : List Token) : program (ts ++ more) = .error e :=
  Reading.statements_error_append h he _ more

/-- The end of the tokens is what is wrong exactly if they are no program and more tokens can make
them one. -/
theorem program_incomplete_iff {ts : List Token} :
    (∃ e, program ts = .error e ∧ e.cause = .endOfInput) ↔
      (∀ p, program ts ≠ .ok p) ∧ ∃ more p, program (ts ++ more) = .ok p := by
  refine ⟨?_, ?_⟩
  · rintro ⟨e, h, he⟩
    obtain ⟨more, p, hp⟩ := Reading.statements_incomplete h he
    obtain ⟨us, rfl⟩ := Reading.exists_tokens more
    rw [← List.map_append] at hp
    obtain ⟨q, hq, -⟩ := exists_program_iff.mpr hp
    exact ⟨fun p hok => by simp [h] at hok, us, q, hq⟩
  · rintro ⟨hnone, more, p, hp⟩
    cases h : program ts with
    | ok q => exact absurd h (hnone q)
    | error e =>
      refine ⟨e, rfl, ?_⟩
      by_cases he : e.cause = .endOfInput
      · exact he
      · rw [program_error_append h he more] at hp
        cases hp

/-- An error about the end says that the tokens are no program but can become one; any other error
stays, with its line, whatever tokens are added. -/
theorem program_error_classified (ts : List Token) :
    ((∃ e, program ts = .error e ∧ e.cause = .endOfInput) ↔
      (∀ p, program ts ≠ .ok p) ∧ ∃ more p, program (ts ++ more) = .ok p) ∧
    ∀ e, program ts = .error e → e.cause ≠ .endOfInput →
      ∀ more, program (ts ++ more) = .error e :=
  ⟨program_incomplete_iff, fun _ h he more => program_error_append h he more⟩

end ExactLinear
