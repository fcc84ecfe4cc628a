import ExactLinear.Syntax.Lexeme

/- The symbols that a text spells: those of its lexemes, cut off from left to
   right. This is what `tokensFrom` finds where it finds no error, without the
   lines. -/
namespace ExactLinear

/-- That `rest` is left of a text when some of its lexemes have been cut off. -/
inductive Lexeme.Leaves : List Char → List Char → Prop
  | all (cs : List Char) : Leaves cs cs
  | cut {cs cs' rest : List Char} {l : Lexeme} :
      first? cs = some (l, cs') → Leaves cs' rest → Leaves cs rest

inductive Spells : List Char → List Symbol → Prop
  | nil : Spells [] []
  | cons {cs rest : List Char} {l : Lexeme} {w : List Symbol} :
      Lexeme.first? cs = some (l, rest) → Spells rest w → Spells cs (l.symbol?.toList ++ w)

theorem spells_of_tokensFrom {line : Nat} {cs : List Char} {ts : List Token}
    (h : tokensFrom line cs = .ok ts) : Spells cs (ts.map Token.symbol) := by
  fun_induction tokensFrom line cs generalizing ts with
  | case1 line cs l rest hfirst hshorter us hrec s hs ih =>
    cases h
    have hspells := Spells.cons hfirst (ih hrec)
    rwa [hs] at hspells
  | case2 line cs l rest hfirst hshorter us hrec hs ih =>
    cases h
    have hspells := Spells.cons hfirst (ih hrec)
    rwa [hs] at hspells
  | case3 => cases h
  | case4 =>
    cases h
    exact .nil
  | case5 => cases h

theorem exists_tokensFrom {cs : List Char} {w : List Symbol} (h : Spells cs w) (line : Nat) :
    ∃ ts, tokensFrom line cs = .ok ts ∧ ts.map Token.symbol = w := by
  induction h generalizing line with
  | nil => exact ⟨[], tokensFrom_nil line, rfl⟩
  | @cons cs rest l w hfirst _ ih =>
    obtain ⟨ts, hts, rfl⟩ := ih (l.lineAfter line)
    refine ⟨l.symbol?.toList.map (⟨·, line⟩) ++ ts, ?_, ?_⟩
    · rw [tokensFrom_of_first? hfirst, hts]
      rfl
    · rw [List.map_append, List.map_map]
      exact congrArg (· ++ ts.map Token.symbol) (List.map_id _)

end ExactLinear
