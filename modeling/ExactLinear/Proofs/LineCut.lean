import ExactLinear.Proofs.Reading.Line
import ExactLinear.Proofs.TokenLine

/- Texts cut at a line break. The line on which a text begins is only counted on
   from, so the tokens of a text further down are the same on lines further down.
   No lexeme goes on over a line feed, whatever stands in front of it, so the tokens
   in front of a line break and those behind it are found apart. -/
namespace ExactLinear

variable {cs : List Char} {line : Nat}

/-! Texts further down. -/

theorem Lexeme.lineAfter_add (l : Lexeme) (line k : Nat) :
    l.lineAfter (line + k) = l.lineAfter line + k := by
  cases l with
  | lineBreak => exact Nat.add_right_comm line k 1
  | _ => rfl

/-- Where a text begins moves its tokens, or the error in it, by as many lines. -/
theorem tokensFrom_add (line k : Nat) (cs : List Char) :
    tokensFrom (line + k) cs =
      ((tokensFrom line cs).map (List.map (Token.mapLine (· + k)))).mapError
        (ParseError.mapLine (· + k)) := by
  induction hsize : cs.length using Nat.strongRecOn generalizing cs line with
  | ind size ih =>
    subst hsize
    cases hfirst : Lexeme.first? cs with
    | some cut =>
      obtain ⟨l, rest⟩ := cut
      have hrest := ih rest.length (Lexeme.first?_length_lt hfirst) (l.lineAfter line) rest rfl
      rw [tokensFrom_of_first? hfirst, tokensFrom_of_first? hfirst, l.lineAfter_add, hrest]
      cases tokensFrom (l.lineAfter line) rest with
      | error e => rfl
      | ok ts =>
        refine congrArg Except.ok ?_
        rw [List.map_append, List.map_map]
        rfl
    | none =>
      cases cs with
      | nil =>
        rw [tokensFrom_nil, tokensFrom_nil]
        rfl
      | cons c rest =>
        rw [tokensFrom_of_none hfirst, tokensFrom_of_none hfirst]
        rfl

/-! Texts behind a line break. -/

/-- The line break stands on the line that the text in front of it leads to, and the text behind
it begins on the next one. -/
theorem tokensFrom_append_lineBreak (line : Nat) (cs cs' : List Char) :
    tokensFrom line (cs ++ '\n' :: cs') =
      (tokensFrom line cs).bind fun before =>
        (tokensFrom (line + cs.count '\n' + 1) cs').map fun after =>
          before ++ ⟨.newLine, line + cs.count '\n'⟩ :: after := by
  induction hsize : cs.length using Nat.strongRecOn generalizing cs line with
  | ind size ih =>
    subst hsize
    cases hfirst : Lexeme.first? cs with
    | some cut =>
      obtain ⟨l, rest⟩ := cut
      have hrest := ih rest.length (Lexeme.first?_length_lt hfirst) (l.lineAfter line) rest rfl
      -- The line feed does not belong to the first lexeme, so this is cut off as before.
      have hstop : ∀ a ∈ ('\n' :: cs').head?, l.takes a = false := by
        rintro a ⟨⟩
        exact l.takes_lineFeed
      obtain ⟨piece, rfl, hline⟩ := Lexeme.exists_piece hfirst
      have hcount : l.lineAfter line + rest.count '\n' = line + (piece ++ rest).count '\n' := by
        rw [hline, List.count_append, Nat.add_assoc]
      rw [tokensFrom_of_first? (Lexeme.first?_append hfirst hstop), hrest, hcount,
        tokensFrom_of_first? hfirst]
      cases tokensFrom (l.lineAfter line) rest with
      | error e => rfl
      | ok before =>
        cases tokensFrom (line + (piece ++ rest).count '\n' + 1) cs' with
        | error e => rfl
        | ok after => exact congrArg Except.ok (List.append_assoc _ _ _).symm
    | none =>
      cases cs with
      | nil =>
        have hbreak : Lexeme.first? ('\n' :: cs') = some (.lineBreak, cs') := rfl
        rw [List.nil_append, tokensFrom_of_first? hbreak, tokensFrom_nil]
        rfl
      | cons c rest =>
        have hstuck : Lexeme.first? (c :: (rest ++ '\n' :: cs')) = none :=
          Lexeme.startingWith?_eq_none hfirst _
        rw [tokensFrom_of_none hfirst, List.cons_append, tokensFrom_of_none hstuck]
        rfl

/-- A text with a line break in it has the tokens in front of it, the line break, and the tokens
behind it, which stand as many lines further down as there are line feeds before them. It is
refused where the first part is, and else where the second part is, as far down. -/
theorem tokenize_append_lineBreak (s t : String) :
    tokenize (s ++ "\n" ++ t) =
      match tokenize s, tokenize t with
      | .error e, _ => .error e
      | .ok _, .error e => .error ⟨e.cause, e.line + (s.toList.count '\n' + 1)⟩
      | .ok before, .ok after =>
        .ok (before ++ ⟨.newLine, s.toList.count '\n' + 1⟩ ::
          after.map fun u => ⟨u.symbol, u.line + (s.toList.count '\n' + 1)⟩) := by
  generalize hn : s.toList.count '\n' = n
  have htext : (s ++ "\n" ++ t).toList = s.toList ++ '\n' :: t.toList := by simp
  have hnext : 1 + n + 1 = 1 + (n + 1) := Nat.add_assoc 1 n 1
  rw [tokenize, htext, tokensFrom_append_lineBreak, hn, hnext, tokensFrom_add, tokenize, tokenize,
    Nat.add_comm 1 n]
  cases tokensFrom 1 s.toList with
  | error e => rfl
  | ok before =>
    cases tokensFrom 1 t.toList with
    | error e => rfl
    | ok after => rfl

/-- A number that breaks off, and a comment that does not go on over the line break. -/
example : tokenize "1.\n2" = .error ⟨.unknownCharacter '.', 1⟩ ∧
    tokenize "x // 1\n\n^" = .error ⟨.unknownCharacter '^', 3⟩ := by
  constructor <;> cbv

end ExactLinear
