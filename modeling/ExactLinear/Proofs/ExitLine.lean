import ExactLinear.Dialogue
import ExactLinear.Proofs.Reading.Composition
import ExactLinear.Proofs.Spelling

/- The line that ends the dialogue. Its text is the call of a function that does not
   exist, which no program begins with, so a program is never taken for it. -/
namespace ExactLinear

open Grammar

/-! Calls of unknown functions. -/

/-- A call of an unknown function is refused whatever follows. -/
theorem Reading.expression_unknown {name : String} (hname : Builtin.ofName? name = none)
    {t u : Token} (ht : t.symbol = .identifier name) (hu : u.symbol = .openParen)
    (ts : List Token) :
    (expression (t :: u :: ts)).result = .fail ⟨.unknownFunction name, t.line⟩ ts := by
  have hafter : (u :: ts).length < (t :: u :: ts).length := Nat.lt_succ_self _
  have hwhole : (t :: u :: ts).length < (t :: u :: ts).length + 1 := Nat.lt_succ_self _
  have hnamed : run (named (innerExpression (t :: u :: ts).length) name t.line) (u :: ts) =
      .fail ⟨.unknownFunction name, t.line⟩ ts := by
    rw [run_named _ _ _ hafter]
    simp only [hu, if_true]
    rw [run_call _ _ _ (Nat.lt_of_succ_lt hafter), hname]
  have hunary : run (unary (innerExpression (t :: u :: ts).length)) (t :: u :: ts) =
      .fail ⟨.unknownFunction name, t.line⟩ ts := by
    rw [run_unary _ hwhole]
    simp only [ht]
    rw [run_primary _ hwhole]
    simp only [ht, hnamed]
  have hproduct : run (multiplicativeWith (innerExpression (t :: u :: ts).length))
      (t :: u :: ts) = .fail ⟨.unknownFunction name, t.line⟩ ts := by
    rw [multiplicativeWith, run_leftAssociative _ _ hwhole, hunary, Result.andThen_fail]
  rw [result_expression, additiveWith, run_leftAssociative _ _ hwhole, hproduct,
    Result.andThen_fail]

theorem Grammar.not_program_unknown {name : String} (hname : Builtin.ofName? name = none)
    {w : List Symbol} {p : List ExactLinear.Statement} :
    ¬Program (.identifier name :: .openParen :: w) p := by
  intro h
  obtain ⟨ts, hts⟩ := Reading.exists_tokens (.identifier name :: .openParen :: w)
  rw [← hts] at h
  obtain ⟨t, tail, rfl, ht, htail⟩ := List.map_eq_cons_iff.mp hts
  obtain ⟨u, us, rfl, hu, -⟩ := List.map_eq_cons_iff.mp htail
  obtain ⟨q, hq, -⟩ := Reading.statements_complete 0 h
  have hskip : Reading.skipSeparators (t :: u :: us) = t :: u :: us :=
    Reading.skipSeparators_cons (by simp [ht, Symbol.isSeparator]) _
  have hassign : ¬Reading.IsAssignment (t :: u :: us) := by
    rintro ⟨_, _, _, _, e⟩
    cases e
    cases hu
  rw [Reading.statements_eq, hskip] at hq
  dsimp only at hq
  rw [Reading.result_statement] at hq
  simp only [Reading.braceAt?, ht, reduceCtorEq, if_false] at hq
  rw [Reading.result_simpleStatement hassign, Reading.expression_unknown hname ht hu] at hq
  cases hq

/-! White space. -/

/-- White space that is neither a line break nor blank to lexemes begins no lexeme. -/
theorem Lexeme.startingWith?_eq_none_of_isBlank {c : Char} (hc : Blank.isBlank c = true)
    (hbreak : c ≠ '\n') (hblank : Lexeme.isBlank c = false) (cs : List Char) :
    Lexeme.startingWith? c cs = none := by
  have hrange : c.toNat ≤ 32 ∨ 126 < c.toNat := by
    simp only [Blank.isBlank, Blank.ranges, List.any_cons, List.any_nil, Bool.or_false,
      Bool.or_eq_true, Bool.and_eq_true, decide_eq_true_eq] at hc
    omega
  have hdigit : c.isDigit = false := by
    cases hdigit : c.isDigit with
    | false => rfl
    | true =>
      have := Lexeme.toNat_of_isDigit hdigit
      omega
  have hname : Lexeme.isNameStart c = false := by
    cases hname : Lexeme.isNameStart c with
    | false => rfl
    | true =>
      have := Lexeme.toNat_of_isNameStart hname
      omega
  have hsign : Lexeme.sign? c = none := by
    unfold Lexeme.sign?
    split <;> first | rfl | (exfalso; revert hrange; decide)
  have hslash : c ≠ '/' := by
    rintro rfl
    cases hsign
  simp [Lexeme.startingWith?, hbreak, hblank, hdigit, hname, hsign, hslash]

/-- White space in front of a text spells line breaks at most. -/
theorem Spells.of_blank_append {pre rest : List Char} {c : Char} {w : List Symbol}
    (hpre : ∀ a ∈ pre, Blank.isBlank a = true) (hc : Lexeme.isBlank c = false)
    (h : Spells (pre ++ c :: rest) w) :
    ∃ b v, w = b ++ v ∧ Separators b ∧ Spells (c :: rest) v := by
  generalize hall : pre ++ c :: rest = all at h
  induction h generalizing pre with
  | nil => simp at hall
  | @cons all rest' l w hfirst hrest ih =>
    subst hall
    cases pre with
    | nil => exact ⟨[], _, rfl, separators_nil, .cons hfirst hrest⟩
    | cons a pre =>
      obtain ⟨ha, hpre'⟩ := List.forall_mem_cons.mp hpre
      by_cases hbreak : a = '\n'
      · subst hbreak
        cases hfirst
        obtain ⟨b, v, rfl, hb, hv⟩ := ih hpre' rfl
        exact ⟨.newLine :: b, v, rfl, List.forall_mem_cons.mpr ⟨rfl, hb⟩, hv⟩
      cases hblank : Lexeme.isBlank a with
      | false =>
        rw [List.cons_append, Lexeme.first?,
          Lexeme.startingWith?_eq_none_of_isBlank ha hbreak hblank] at hfirst
        cases hfirst
      | true =>
        rw [List.cons_append, Lexeme.first?, Lexeme.startingWith?_of_isBlank hblank] at hfirst
        cases hfirst
        have hstop : ∀ a ∈ (c :: rest).head?, Lexeme.isBlank a = false := by
          rintro a ⟨⟩
          exact hc
        -- Blanks are cut off together, and they end in front of `c` at the latest.
        have hdrop := Lexeme.dropWhile_append_of_head hstop pre
        exact ih (fun a ha => hpre' a ((List.dropWhile_sublist _).mem ha)) hdrop.symm

/-- What a trimmed text is, with white space around it, is the text. -/
theorem Blank.exists_of_trim (cs : List Char) :
    ∃ pre post, cs = pre ++ trim cs ++ post ∧ ∀ a ∈ pre, isBlank a = true := by
  refine ⟨cs.takeWhile isBlank, ((cs.dropWhile isBlank).reverse.takeWhile isBlank).reverse, ?_,
    fun a ha => List.all_eq_true.mp List.all_takeWhile a ha⟩
  rw [List.append_assoc, trim, ← List.reverse_append, List.takeWhile_append_dropWhile,
    List.reverse_reverse, List.takeWhile_append_dropWhile]

/-- A line that ends the dialogue spells the call of a function that does not exist. -/
theorem Dialogue.not_program_of_isExit {s : Dialogue.State} {line : List Char}
    (hexit : isExit s (String.ofList line) = true) {v w : List Symbol} (hv : Spells line v)
    {p : List Statement} : ¬Program (v ++ w) p := by
  have htrim : Blank.trim line = ['e', 'x', 'i', 't', '(', ')'] := by
    simpa [isExit, exitCommand] using (Bool.and_eq_true_iff.mp hexit).2
  obtain ⟨pre, post, hline, hpre⟩ := Blank.exists_of_trim line
  rw [htrim, List.append_assoc] at hline
  rw [hline] at hv
  obtain ⟨b, v', rfl, hb, hv'⟩ := hv.of_blank_append hpre rfl
  intro h
  rw [List.append_assoc] at h
  have hrest := Program.of_separators_append hb h
  have hunknown : Builtin.ofName? (String.ofList ['e', 'x', 'i', 't']) = none := by decide
  have hcut : Lexeme.first? ('e' :: (['x', 'i', 't', '(', ')'] ++ post)) =
      some (.identifier ['e', 'x', 'i', 't'], '(' :: ')' :: post) := rfl
  cases hv' with
  | cons hname hv' =>
    cases hcut.symm.trans hname
    cases hv' with
    | cons hparen _ =>
      cases hparen
      exact not_program_unknown hunknown hrest

end ExactLinear
