import ExactLinear.Proofs.LongestLexeme

/- The lines that tokens and lexical errors stand on. Of all lexemes only a line
   break holds a line feed, so the line counted on while a text is cut up is the
   number of line feeds cut off so far. -/
namespace ExactLinear

namespace Lexeme
variable {l : Lexeme} {cs rest piece : List Char}

theorem not_mem_digits {ds : List Char} (hds : Digits ds) : '\n' ∉ ds := by
  intro h
  have hdigit := isDigit_of_digits hds '\n' h
  cases hdigit

theorem Spelled.not_mem (h : Spelled piece l) (hl : l ≠ .lineBreak) : '\n' ∉ piece := by
  cases h with
  | whole hds => exact not_mem_digits hds
  | decimal hds hfs =>
    have hpoint : '\n' ≠ '.' := by decide
    exact List.not_mem_append (not_mem_digits hds)
      (List.not_mem_cons_of_ne_of_not_mem hpoint (not_mem_digits hfs))
  | name hc hcs =>
    intro hmem
    rcases List.mem_cons.mp hmem with rfl | hmem
    · have hstart := isNameStart_iff.mpr hc
      cases hstart
    · have hpart := isNamePart_iff.mpr (hcs '\n' hmem)
      cases hpart
  | sign hs =>
    have hother : ∀ p ∈ signs, '\n' ∉ [p.1] := by decide
    exact hother _ hs
  | lineBreak => exact absurd rfl hl
  | comment hcs =>
    have hslash : '\n' ≠ '/' := by decide
    exact List.not_mem_cons_of_ne_of_not_mem hslash
      (List.not_mem_cons_of_ne_of_not_mem hslash fun hmem => (hcs _ hmem).1 rfl)
  | blank hne hcs =>
    intro hmem
    exact absurd (hcs _ hmem) (by decide)

/-- The line goes on by the line feeds of a lexeme. -/
theorem Spelled.lineAfter_eq (h : Spelled piece l) (line : Nat) :
    l.lineAfter line = line + piece.count '\n' := by
  by_cases hl : l = .lineBreak
  · subst hl
    cases h
    rfl
  · rw [List.count_eq_zero.mpr (h.not_mem hl)]
    cases l with
    | lineBreak => exact absurd rfl hl
    | _ => rfl

/-- What a lexeme takes off the front of a text is not lost, and its line feeds are counted. -/
theorem exists_piece (h : first? cs = some (l, rest)) :
    ∃ piece, cs = piece ++ rest ∧ ∀ line, l.lineAfter line = line + piece.count '\n' := by
  obtain ⟨piece, rfl, hspelled⟩ := exists_spelled h
  exact ⟨piece, rfl, hspelled.lineAfter_eq⟩

end Lexeme

variable {line : Nat} {cs : List Char}

/-- Every token stands on a line of its text. -/
theorem line_of_mem_tokensFrom {ts : List Token} (h : tokensFrom line cs = .ok ts) :
    ∀ t ∈ ts, line ≤ t.line ∧ t.line ≤ line + cs.count '\n' := by
  fun_induction tokensFrom line cs generalizing ts with
  | case1 line cs l rest hfirst hshorter us hrec s hs ih =>
    cases h
    obtain ⟨piece, rfl, hline⟩ := Lexeme.exists_piece hfirst
    rw [List.forall_mem_cons, List.count_append]
    refine ⟨⟨Nat.le_refl _, Nat.le_add_right _ _⟩, fun t ht => ?_⟩
    have hbounds := ih hrec t ht
    rw [hline] at hbounds
    omega
  | case2 line cs l rest hfirst hshorter us hrec hs ih =>
    cases h
    obtain ⟨piece, rfl, hline⟩ := Lexeme.exists_piece hfirst
    intro t ht
    have hbounds := ih hrec t ht
    rw [hline] at hbounds
    rw [List.count_append]
    omega
  | case3 => cases h
  | case4 =>
    cases h
    exact List.forall_mem_nil _
  | case5 => cases h

/-- A text is refused at the first character at which no lexeme begins, on its line. -/
theorem exists_of_tokensFrom_error {e : ParseError} (h : tokensFrom line cs = .error e) :
    ∃ before c rest, cs = before ++ c :: rest ∧ Lexeme.Leaves cs (c :: rest) ∧
      Lexeme.first? (c :: rest) = none ∧ e = ⟨.unknownCharacter c, line + before.count '\n'⟩ := by
  fun_induction tokensFrom line cs with
  | case1 => cases h
  | case2 => cases h
  | case3 line cs l rest hfirst hshorter error hrec ih =>
    cases h
    obtain ⟨before, c, left, rfl, hleaves, hnone, rfl⟩ := ih hrec
    obtain ⟨piece, rfl, hline⟩ := Lexeme.exists_piece hfirst
    refine ⟨piece ++ before, c, left, by simp, .cut hfirst hleaves, hnone, ?_⟩
    rw [hline, List.count_append, Nat.add_assoc]
  | case4 => cases h
  | case5 line c rest hnone =>
    cases h
    exact ⟨[], c, rest, rfl, .all _, hnone, rfl⟩

end ExactLinear
