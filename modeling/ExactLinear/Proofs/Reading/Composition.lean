import ExactLinear.Proofs.Reading.Program

/- Programs cut in two. If the front of a program, up to a line break, is a
   program, then so is the rest, and the statements of the whole are those of the
   two parts. -/
namespace ExactLinear.Grammar

open Reading

/-- Behind a first statement the rest of a program is a program. -/
theorem Program.tail {b w w' : List Symbol} {s : ExactLinear.Statement}
    {p : List ExactLinear.Statement} (hb : Separators b) (hs : Statement w s) (hended : Ended w')
    (h : Program (b ++ w ++ w') p) : ∃ p', Program w' p' ∧ p = s :: p' := by
  obtain ⟨bs, rfl⟩ := exists_tokens b
  obtain ⟨us, rfl⟩ := exists_tokens w
  obtain ⟨ws, rfl⟩ := exists_tokens w'
  obtain ⟨t, vs, hskip, -, -, hvs⟩ := skipSeparators_statement hb hs ws
  obtain ⟨value, hvalue, hview⟩ := statement_complete hvs (endsStatement_of_ended hended)
  have h' : Program ((bs ++ us ++ ws).map Token.symbol) p := by simpa using h
  -- The whole is read, and its first statement is the one that is known.
  obtain ⟨values, hvalues, rfl⟩ := statements_complete 0 h'
  rw [List.cons_append] at hskip hvalue
  rw [statements_eq, hskip] at hvalues
  dsimp only at hvalues
  rw [hvalue] at hvalues
  dsimp only at hvalues
  rw [afterStatement_false_eq_none.mpr hended] at hvalues
  cases hrest : statements 0 ws with
  | error e =>
    rw [hrest] at hvalues
    cases hvalues
  | ok rest =>
    rw [hrest] at hvalues
    cases hvalues
    exact ⟨_, statements_sound hrest, by simp [hview]⟩

theorem Program.of_separators_append {b w : List Symbol} {p : List ExactLinear.Statement}
    (hb : Separators b) (h : Program (b ++ w) p) : Program w p := by
  obtain ⟨bs, rfl⟩ := exists_tokens b
  obtain ⟨ws, rfl⟩ := exists_tokens w
  have h' : Program ((bs ++ ws).map Token.symbol) p := by simpa using h
  obtain ⟨values, hvalues, rfl⟩ := statements_complete 0 h'
  rw [statements_eq, skipSeparators_append hb, ← statements_eq] at hvalues
  exact statements_sound hvalues

theorem Program.of_append {w w' : List Symbol} {q p : List ExactLinear.Statement}
    (hq : Program w q) (hended : Ended w') (h : Program (w ++ w') p) :
    ∃ p', Program w' p' ∧ p = q ++ p' := by
  induction hq generalizing p with
  | nil hb => exact ⟨p, Program.of_separators_append hb h, rfl⟩
  | cons hb hs hended' _ ih =>
    rw [List.append_assoc] at h
    obtain ⟨r, hr, rfl⟩ := Program.tail hb hs (hended'.append hended) h
    obtain ⟨p', hp', rfl⟩ := ih hr
    exact ⟨p', hp', rfl⟩

/-- A program that begins with lines that are one already. -/
theorem Program.of_append_lineBreak {w w' : List Symbol} {q p : List ExactLinear.Statement}
    (hq : Program (w ++ [.newLine]) q) (h : Program (w ++ .newLine :: w') p) :
    ∃ p', Program w' p' ∧ p = q ++ p' := by
  obtain ⟨p', hp', rfl⟩ := Program.of_append (hq.of_append_separator rfl) (ended_cons.mpr rfl) h
  have hbreak : Separators [.newLine] := List.forall_mem_singleton.mpr rfl
  exact ⟨p', Program.of_separators_append hbreak hp', rfl⟩

end ExactLinear.Grammar
