import ExactLinear.Proofs.Reading.Completeness
import ExactLinear.Proofs.Reading.Soundness
import ExactLinear.Syntax.Spelling

/- The programs that are read, from tokens or from a text, are the ones that the
   grammar derives. -/
namespace ExactLinear

open Grammar

theorem derived_unique {w : List Symbol} {p p' : List Statement} (h : Program w p)
    (h' : Program w p') : p = p' := by
  obtain ⟨ts, rfl⟩ := Reading.exists_tokens w
  obtain ⟨q, hq, rfl⟩ := Reading.statements_complete 0 h
  obtain ⟨q', hq', rfl⟩ := Reading.statements_complete 0 h'
  rw [hq] at hq'
  cases hq'
  rfl

theorem exists_program_iff {ts : List Token} {p : List Statement} :
    (∃ q, program ts = .ok q ∧ q.map Statement.unlined = p) ↔ Program (ts.map Token.symbol) p := by
  refine ⟨?_, Reading.statements_complete _⟩
  rintro ⟨q, hq, rfl⟩
  exact Reading.statements_sound hq

/-- A list of tokens is read as a program exactly if the grammar derives it, and what is read is,
up to lines, the only tree that the grammar derives it for. -/
theorem program_reads_grammar :
    (∀ ts p, (∃ q, program ts = .ok q ∧ q.map Statement.unlined = p) ↔
      Program (ts.map Token.symbol) p) ∧
    ∀ w p p', Program w p → Program w p' → p = p' :=
  ⟨fun _ _ => exists_program_iff, fun _ _ _ => derived_unique⟩

/-- A text is parsed exactly if it spells symbols that the grammar derives. -/
theorem exists_parse_iff {text : String} {p : List Statement} :
    (∃ q, parse text = .ok q ∧ q.map Statement.unlined = p) ↔
      ∃ w, Spells text.toList w ∧ Program w p := by
  refine ⟨?_, ?_⟩
  · rintro ⟨q, hq, rfl⟩
    rw [parse] at hq
    cases hts : tokenize text with
    | error e =>
      rw [hts] at hq
      cases hq
    | ok ts =>
      rw [hts] at hq
      exact ⟨_, spells_of_tokensFrom hts, exists_program_iff.mp ⟨q, hq, rfl⟩⟩
  · rintro ⟨w, hw, hp⟩
    obtain ⟨ts, hts, rfl⟩ := exists_tokensFrom hw 1
    obtain ⟨q, hq, hunlined⟩ := exists_program_iff.mpr hp
    refine ⟨q, ?_, hunlined⟩
    rw [parse, tokenize, hts]
    exact hq

end ExactLinear
