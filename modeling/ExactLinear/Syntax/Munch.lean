import ExactLinear.Syntax.Lexeme

/- Maximal munch. What the lexemes of each class look like is said of their
   characters alone (`Lexeme.Spelled`). A text is then cut up from left to right, and
   of all its prefixes that are lexemes the longest is cut off (`Lexeme.Munches`).
   How to find the end of that prefix is not said here. -/
namespace ExactLinear

namespace Lexeme

/-- One or more digits. -/
def Digits (ds : List Char) : Prop := ds ≠ [] ∧ ∀ d ∈ ds, '0' ≤ d ∧ d ≤ '9'

/-- Letters and the underscore. -/
def Initial (c : Char) : Prop := ('a' ≤ c ∧ c ≤ 'z') ∨ ('A' ≤ c ∧ c ≤ 'Z') ∨ c = '_'

/-- The thirteen operators and delimiters. -/
def signs : List (Char × Symbol) :=
  [('+', .plus), ('-', .minus), ('*', .star), ('/', .slash), ('(', .openParen), (')', .closeParen),
    ('[', .openBracket), (']', .closeBracket), ('{', .openBrace), ('}', .closeBrace),
    (',', .comma), ('=', .equals), (';', .semicolon)]

/-- Space, tab, form feed and carriage return. -/
def blanks : List Char := [' ', '\t', '\x0c', '\r']

/-- That a text as a whole is a lexeme. -/
inductive Spelled : List Char → Lexeme → Prop
  | whole {ds : List Char} : Digits ds → Spelled ds (.number ds [])
  | decimal {ds fs : List Char} : Digits ds → Digits fs → Spelled (ds ++ '.' :: fs) (.number ds fs)
  | name {c : Char} {cs : List Char} :
      Initial c → (∀ a ∈ cs, Initial a ∨ ('0' ≤ a ∧ a ≤ '9')) →
      Spelled (c :: cs) (.identifier (c :: cs))
  | sign {c : Char} {s : Symbol} : (c, s) ∈ signs → Spelled [c] (.sign s)
  | lineBreak : Spelled ['\n'] .lineBreak
  | comment {cs : List Char} :
      (∀ c ∈ cs, c ≠ '\n' ∧ c ≠ '\r') → Spelled ('/' :: '/' :: cs) .comment
  | blank {cs : List Char} : cs ≠ [] → (∀ c ∈ cs, c ∈ blanks) → Spelled cs .blank

/-- That of all prefixes of a text that are lexemes `piece` is the longest. -/
structure Longest (cs piece : List Char) (l : Lexeme) : Prop where
  spelled : Spelled piece l
  begins : piece <+: cs
  longest : ∀ piece' l', Spelled piece' l' → piece' <+: cs → piece'.length ≤ piece.length

/-- A lexeme and its text. -/
structure Piece where
  text : List Char
  lexeme : Lexeme

/-- That the longest lexeme is cut off a text again and again, which gives the pieces and
leaves `rest`. -/
inductive Munches : List Char → List Piece → List Char → Prop
  | all (cs : List Char) : Munches cs [] cs
  | cut {p : Piece} {cs rest : List Char} {pieces : List Piece} :
      Longest (p.text ++ cs) p.text p.lexeme → Munches cs pieces rest →
      Munches (p.text ++ cs) (p :: pieces) rest

/-- The pieces and what is left make up the text. -/
theorem Munches.eq_append {cs rest : List Char} {pieces : List Piece}
    (h : Munches cs pieces rest) : cs = pieces.flatMap Piece.text ++ rest := by
  induction h with
  | all cs => rfl
  | cut _ _ ih => rw [List.flatMap_cons, List.append_assoc, ← ih]

end Lexeme

end ExactLinear
