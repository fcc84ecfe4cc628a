import ExactLinear.Proofs.Reading.Extension
import Mathlib.Data.List.Basic

/- Programs one behind the other, with a separator between them. A statement never ends
   in a separator, so one that is read from tokens with a separator at their end
   leaves that separator behind; then what follows does not matter to it. A line break
   within a statement has something of the statement behind it. -/
namespace ExactLinear

open Grammar

namespace Reading
variable {ts : List Token}

/-- That the last token, if there is one, is a separator. -/
def Separated (ts : List Token) : Prop := ∀ u ∈ ts.getLast?, u.symbol.isSeparator = true

theorem Separated.of_append {before after : List Token} (h : Separated (before ++ after))
    (hne : after ≠ []) : Separated after := by
  rwa [Separated, List.getLast?_append_of_ne_nil before hne] at h

theorem not_separated_of_firm (h : Firm (ts.map Token.symbol)) : ¬Separated ts := by
  obtain ⟨w, s, heq, hs⟩ := h
  intro hts
  obtain ⟨front, last, rfl, -, hlast⟩ := List.map_eq_append_iff.mp heq
  obtain ⟨u, rfl, rfl⟩ := List.map_eq_singleton_iff.mp hlast
  have hu := hts u (by simp)
  rw [hs] at hu
  cases hu

/-- The tokens behind a statement, and behind the separators in front of it, still end in a
separator; so there are some. -/
theorem Separated.rest {rest after : List Token} {t : Token} {s : Statement} (h : Separated ts)
    (hskip : skipSeparators ts = t :: rest)
    (hread : (statement (t :: rest)).result = .ok s after) : after ≠ [] ∧ Separated after := by
  obtain ⟨b, rfl, -⟩ := exists_separators_append hskip
  have hstatement : Separated (t :: rest) := h.of_append (List.cons_ne_nil t rest)
  have hsound := statement_sound (t :: rest)
  generalize statement (t :: rest) = reply at hread hsound
  cases reply with
  | fail e left => cases hread
  | ok value left shorter =>
    cases hread
    obtain ⟨read, hts, hderived⟩ := hsound
    rw [hts] at hstatement
    have hne : after ≠ [] := by
      rintro rfl
      rw [List.append_nil] at hstatement
      exact not_separated_of_firm (ends_statement _ _ hderived) hstatement
    exact ⟨hne, hstatement.of_append hne⟩

/-- Whatever line the end is reported on. -/
theorem statements_append {last : Nat} {p : List Statement} (hts : Separated ts)
    (hp : statements last ts = .ok p) (last' : Nat) (more : List Token) :
    statements last' (ts ++ more) = (statements last' more).map (p ++ ·) := by
  fun_induction statements last ts generalizing p with
  | case1 ts hskip =>
    cases hp
    obtain ⟨b, rfl, hb⟩ := exists_separators_append hskip
    rw [List.append_nil, statements_eq, skipSeparators_append hb, ← statements_eq]
    cases statements last' more <;> rfl
  | case4 ts t rest hskip s after shorter hr hafter hend ss hrec ih =>
    cases hp
    have hread : (statement (t :: rest)).result = .ok s after := by rw [hr, Reply.result_ok]
    obtain ⟨hne, hrest⟩ := hts.rest hskip hread
    rw [statements_append_of_rest hskip hread hne, hend, ih hrest hrec]
    cases statements last' more <;> rfl
  | case2 | case3 | case5 => cases hp

end Reading

/-- Tokens that are empty or end in a separator and are a program can stand in front of any others.
If those are a program, its statements follow; if not, they fail as they do alone, on the same
line. -/
theorem program_append {ts : List Token} {p : List Statement}
    (hts : ∀ t ∈ ts.getLast?, t.symbol = .newLine ∨ t.symbol = .semicolon)
    (hp : program ts = .ok p) (more : List Token) :
    program (ts ++ more) = (program more).map (p ++ ·) := by
  have hseparated : Reading.Separated ts := by
    intro t ht
    rcases hts t ht with h | h <;> rw [h] <;> rfl
  have happend := fun last => Reading.statements_append hseparated hp last more
  by_cases hmore : more = []
  · subst hmore
    rw [program, happend, program, Reading.statements_nil, Reading.statements_nil]
  · have hlast : Reading.lastLine (ts ++ more) = Reading.lastLine more := by
      rw [Reading.lastLine, List.getLast?_append_of_ne_nil ts hmore, Reading.lastLine]
    rw [program, happend, hlast, program]

/-- An assignment over two lines, and behind it a parenthesis that is not closed on line 5. -/
theorem program_append_unfinished :
    (∀ t ∈ [Token.mk (.identifier "x") 1, ⟨.equals, 1⟩, ⟨.minus, 1⟩, ⟨.newLine, 1⟩, ⟨.number 2, 2⟩,
      ⟨.semicolon, 2⟩].getLast?, t.symbol = .newLine ∨ t.symbol = .semicolon) ∧
    program [⟨.identifier "x", 1⟩, ⟨.equals, 1⟩, ⟨.minus, 1⟩, ⟨.newLine, 1⟩, ⟨.number 2, 2⟩,
      ⟨.semicolon, 2⟩] = .ok [.assign "x" (.neg (.literal (.scalar 2) 2) 1) 1] ∧
    program ([⟨.identifier "x", 1⟩, ⟨.equals, 1⟩, ⟨.minus, 1⟩, ⟨.newLine, 1⟩, ⟨.number 2, 2⟩,
      ⟨.semicolon, 2⟩] ++ [⟨.openParen, 5⟩, ⟨.newLine, 5⟩]) = .error ⟨.endOfInput, 5⟩ := by
  have hts : ∀ t ∈ [Token.mk (.identifier "x") 1, ⟨.equals, 1⟩, ⟨.minus, 1⟩, ⟨.newLine, 1⟩,
      ⟨.number 2, 2⟩, ⟨.semicolon, 2⟩].getLast?, t.symbol = .newLine ∨ t.symbol = .semicolon := by
    decide
  have hp : program [⟨.identifier "x", 1⟩, ⟨.equals, 1⟩, ⟨.minus, 1⟩, ⟨.newLine, 1⟩,
      ⟨.number 2, 2⟩, ⟨.semicolon, 2⟩] =
      .ok [.assign "x" (.neg (.literal (.scalar 2) 2) 1) 1] := by
    cbv
  have hmore : program [⟨.openParen, 5⟩, ⟨.newLine, 5⟩] = .error ⟨.endOfInput, 5⟩ := by
    cbv
  refine ⟨hts, hp, ?_⟩
  rw [program_append hts hp, hmore]
  rfl

end ExactLinear
