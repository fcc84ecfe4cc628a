import ExactLinear.Proofs.Evaluation.Line
import ExactLinear.Proofs.Reading.Line
import ExactLinear.Proofs.TokenLine
import ExactLinear.Session

/- Lines are labels. Relabelling them commutes with reading and with running, so a
   line that comes out of either is one that went in: every relabelling that fixes
   the lines of the tokens fixes it as well. With the lines of tokens known this
   places every error of a run on a line of its text. -/
namespace ExactLinear

/-- Reading and running commute with every change of lines. -/
theorem lines_are_labels (f : Nat → Nat) :
    (∀ ts, program (ts.map (Token.mapLine f)) =
      ((program ts).map (List.map (Statement.mapLine f))).mapError (ParseError.mapLine f)) ∧
    (∀ (env : Environment) (e : Expr),
      env.evaluate (e.mapLine f) = (env.evaluate e).mapError (RuntimeError.mapLine f)) ∧
    ∀ (env : Environment) (s : Statement), env.execute (s.mapLine f) =
      ((env.execute s).1, (env.execute s).2.mapError (RuntimeError.mapLine f)) :=
  ⟨program_mapLine f, fun env e => env.evaluate_mapLine f e,
    fun env s => Environment.execute_mapLine f s env⟩

/-! Lines that go in and come out. -/

/-- What every function with the fixed points `lines` fixes is one of them. -/
theorem mem_of_fixed {lines : List Nat} {line : Nat}
    (h : ∀ f : Nat → Nat, (∀ l ∈ lines, f l = l) → f line = line) : line ∈ lines := by
  by_cases hline : line ∈ lines
  · exact hline
  · have hmoved := h (fun l => if l ∈ lines then l else l + 1) fun l hl => if_pos hl
    rw [if_neg hline] at hmoved
    omega

section
variable {ts : List Token} {e : ParseError} {p : List Statement}

theorem map_mapLine_of_fixed {f : Nat → Nat} (hf : ∀ line ∈ ts.map Token.line, f line = line) :
    ts.map (Token.mapLine f) = ts := by
  have hid : ∀ t ∈ ts, t.mapLine f = t :=
    fun t ht => congrArg (Token.mk t.symbol) (hf t.line (List.mem_map_of_mem ht))
  rw [List.map_congr_left hid, List.map_id']

/-- An error stands on the line of a token. -/
theorem line_mem_of_program_error (h : program ts = .error e) : e.line ∈ ts.map Token.line := by
  refine mem_of_fixed fun f hf => ?_
  have hmap := program_mapLine f ts
  rw [map_mapLine_of_fixed hf, h] at hmap
  have he := Except.error.inj hmap
  exact (congrArg ParseError.line he).symm

theorem line_mem_of_executeAll_error (hp : program ts = .ok p) {env after : Environment}
    {last : Option Value} {e : RuntimeError} (h : env.executeAll last p = (after, .error e)) :
    e.line ∈ ts.map Token.line := by
  refine mem_of_fixed fun f hf => ?_
  have hmap := program_mapLine f ts
  rw [map_mapLine_of_fixed hf, hp] at hmap
  have hfixed : p = p.map (Statement.mapLine f) := Except.ok.inj hmap
  have hrun := Environment.executeAll_mapLine f env last p
  rw [← hfixed, h] at hrun
  have he := Except.error.inj (congrArg Prod.snd hrun)
  exact (congrArg RuntimeError.line he).symm

/-- An end that comes too early is reported on the line of the last token. -/
theorem Reading.line_of_statements_incomplete {last : Nat} (h : statements last ts = .error e)
    (he : e.cause = .endOfInput) : e.line = last := by
  fun_induction statements last ts with
  | case1 => cases h
  | case2 ts t rest hskip error after hr =>
    cases h
    by_cases hend : error.isIncomplete = true
    · rw [if_pos hend]
    · rw [if_neg hend] at he
      exact absurd (beq_iff_eq.mpr he) hend
  | case3 ts t rest hskip s after shorter hr hafter error hend =>
    cases h
    cases (eq_nil_of_afterStatement hend he).1
  | case4 => cases h
  | case5 ts t rest hskip s after shorter hr hafter hend error hrec ih =>
    cases h
    exact ih hrec

theorem exists_last_of_program_incomplete (h : program ts = .error e)
    (he : e.cause = .endOfInput) : ∃ t, ts.getLast? = some t ∧ e.line = t.line := by
  have hts : ts ≠ [] := by
    rintro rfl
    rw [program, Reading.statements_nil] at h
    cases h
  have hlast := List.getLast?_eq_some_getLast hts
  refine ⟨ts.getLast hts, hlast, ?_⟩
  rw [Reading.line_of_statements_incomplete h he, Reading.lastLine, hlast]
  rfl

end

/-! Texts. -/

def SourceError.line : SourceError → Nat
  | .parse e => e.line
  | .runtime e => e.line

/-- A run fails while its text is cut up, while its tokens are read, or while its statements run. -/
theorem Environment.run_error_cases {env after : Environment} {text : String} {e : SourceError}
    (h : env.run text = (after, .error e)) :
    (∃ error, tokenize text = .error error ∧ e = .parse error) ∨
    ∃ ts, tokenize text = .ok ts ∧
      ((∃ error, program ts = .error error ∧ e = .parse error) ∨
        ∃ p error, program ts = .ok p ∧ env.executeAll none p = (after, .error error) ∧
          e = .runtime error) := by
  rw [run, parse] at h
  cases hts : tokenize text with
  | error error =>
    rw [hts] at h
    cases h
    exact .inl ⟨error, rfl, rfl⟩
  | ok ts =>
    rw [hts] at h
    dsimp only at h
    refine .inr ⟨ts, rfl, ?_⟩
    cases hp : program ts with
    | error error =>
      rw [hp] at h
      cases h
      exact .inl ⟨error, rfl, rfl⟩
    | ok p =>
      rw [hp] at h
      dsimp only at h
      rcases hrun : env.executeAll none p with ⟨left, error | value⟩
      · rw [hrun] at h
        cases h
        exact .inr ⟨p, error, rfl, hrun, rfl⟩
      · rw [hrun] at h
        cases h

/-- Every error of a run stands on a line of its text: a lexical one on the line of the character
at which no lexeme begins, one about the end on the line of the last token. -/
theorem Environment.run_error_line {env after : Environment} {text : String} {e : SourceError}
    (h : env.run text = (after, .error e)) :
    (1 ≤ e.line ∧ e.line ≤ 1 + text.toList.count '\n') ∧
    (∀ error, tokenize text = .error error →
      ∃ before c rest, text.toList = before ++ c :: rest ∧
        Lexeme.Leaves text.toList (c :: rest) ∧ Lexeme.first? (c :: rest) = none ∧
        e = .parse ⟨.unknownCharacter c, 1 + before.count '\n'⟩) ∧
    ∀ line, e = .parse ⟨.endOfInput, line⟩ →
      ∃ ts t, tokenize text = .ok ts ∧ ts.getLast? = some t ∧ line = t.line := by
  rcases run_error_cases h with ⟨error, hlexical, rfl⟩ | ⟨ts, hts, hcases⟩
  · obtain ⟨before, c, rest, htext, hleaves, hnone, rfl⟩ := exists_of_tokensFrom_error hlexical
    refine ⟨⟨Nat.le_add_right _ _, ?_⟩, ?_, ?_⟩
    · rw [htext, List.count_append]
      exact Nat.add_le_add_left (Nat.le_add_right _ _) 1
    · intro _ _
      exact ⟨before, c, rest, htext, hleaves, hnone, rfl⟩
    · rintro line ⟨⟩
  · have hline : e.line ∈ ts.map Token.line := by
      rcases hcases with ⟨error, hp, rfl⟩ | ⟨p, error, hp, hrun, rfl⟩
      · exact line_mem_of_program_error hp
      · exact line_mem_of_executeAll_error hp hrun
    obtain ⟨t, ht, heq⟩ := List.mem_map.mp hline
    refine ⟨heq ▸ line_of_mem_tokensFrom hts t ht, ?_, ?_⟩
    · intro error herror
      rw [hts] at herror
      cases herror
    · rintro line rfl
      rcases hcases with ⟨error, hp, hparse⟩ | ⟨_, _, _, _, hruntime⟩
      · cases hparse
        obtain ⟨last, hlast, hlastLine⟩ := exists_last_of_program_incomplete hp rfl
        exact ⟨ts, last, hts, hlast, hlastLine⟩
      · cases hruntime

/-- A character that begins no lexeme on the third line, and a parenthesis that is never closed. -/
theorem Environment.run_error_line_third :
    (∃ e, (Environment.empty.run "x = 1 // é\n\n x é").2 = .error e ∧ e.line = 3 ∧
      e.line ≤ 1 + "x = 1 // é\n\n x é".toList.count '\n') ∧
    ∃ ts t, tokenize "x = 1\n(x +\n\n" = .ok ts ∧ ts.getLast? = some t ∧ 3 = t.line := by
  have hlexical : Environment.empty.run "x = 1 // é\n\n x é" =
      (.empty, .error (.parse ⟨.unknownCharacter 'é', 3⟩)) := by
    have htokens : tokenize "x = 1 // é\n\n x é" = .error ⟨.unknownCharacter 'é', 3⟩ := by
      decide +kernel
    rw [run, parse, htokens]
  have hend : Environment.empty.run "x = 1\n(x +\n\n" =
      (.empty, .error (.parse ⟨.endOfInput, 3⟩)) := by
    have htokens : tokenize "x = 1\n(x +\n\n" =
        .ok [⟨.identifier "x", 1⟩, ⟨.equals, 1⟩, ⟨.number 1, 1⟩, ⟨.newLine, 1⟩, ⟨.openParen, 2⟩,
          ⟨.identifier "x", 2⟩, ⟨.plus, 2⟩, ⟨.newLine, 2⟩, ⟨.newLine, 3⟩] := by
      decide +kernel
    rw [run, parse, htokens]
    cbv
  exact ⟨⟨_, congrArg Prod.snd hlexical, rfl, (run_error_line hlexical).1.2⟩,
    (run_error_line hend).2.2 3 rfl⟩

end ExactLinear
