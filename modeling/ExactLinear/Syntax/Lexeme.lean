import ExactLinear.Scalar.Decimal
import ExactLinear.Syntax.ParseError

/- Lexemes: the pieces that a text is cut into from left to right, each the
   longest that begins at its place. `Lexeme.first?` cuts off the first one,
   `tokenize` cuts up a whole text and keeps the symbols. Letters and digits are
   the ASCII ones; any other character may stand in a comment only. -/
namespace ExactLinear

inductive Lexeme where
  /-- Digits, and those after a point if there are any. -/
  | number (whole fraction : List Char)
  | identifier (name : List Char)
  | sign (symbol : Symbol)
  | lineBreak
  /-- Two slashes and the rest of the line. -/
  | comment
  | blank
  deriving DecidableEq, Repr

namespace Lexeme

/-! Character classes. -/

def isBlank (c : Char) : Bool := c == ' ' || c == '\t' || c == '\x0c' || c == '\r'

def isNameStart (c : Char) : Bool := c.isAlpha || c == '_'

def isNamePart (c : Char) : Bool := c.isAlphanum || c == '_'

/-- A comment goes on up to a line feed or a carriage return. -/
def inComment (c : Char) : Bool := c != '\n' && c != '\r'

/-- The symbols of one character. -/
def sign? : Char → Option Symbol
  | '+' => some .plus
  | '-' => some .minus
  | '*' => some .star
  | '/' => some .slash
  | '(' => some .openParen
  | ')' => some .closeParen
  | '[' => some .openBracket
  | ']' => some .closeBracket
  | '{' => some .openBrace
  | '}' => some .closeBrace
  | ',' => some .comma
  | '=' => some .equals
  | ';' => some .semicolon
  | _ => none

/-! The first lexeme. -/

/-- A number whose digits before any point are `whole`, and the text after it. A point counts
only when a digit follows it. -/
def numberAfter (whole : List Char) : List Char → Lexeme × List Char
  | '.' :: d :: rest =>
    if d.isDigit then
      (.number whole (d :: rest.takeWhile Char.isDigit), rest.dropWhile Char.isDigit)
    else (.number whole [], '.' :: d :: rest)
  | rest => (.number whole [], rest)

/-- The lexeme that begins with the character `c`, and the text after it. -/
def startingWith? (c : Char) (rest : List Char) : Option (Lexeme × List Char) :=
  if c = '\n' then some (.lineBreak, rest)
  else if isBlank c then some (.blank, rest.dropWhile isBlank)
  else if c.isDigit then
    some (numberAfter (c :: rest.takeWhile Char.isDigit) (rest.dropWhile Char.isDigit))
  else if isNameStart c then
    some (.identifier (c :: rest.takeWhile isNamePart), rest.dropWhile isNamePart)
  else if c = '/' ∧ rest.head? = some '/' then some (.comment, rest.dropWhile inComment)
  else (sign? c).map fun s => (.sign s, rest)

def first? : List Char → Option (Lexeme × List Char)
  | [] => none
  | c :: rest => startingWith? c rest

theorem numberAfter_length_le (whole cs : List Char) :
    (numberAfter whole cs).2.length ≤ cs.length := by
  unfold numberAfter
  split
  · split
    · exact (((List.dropWhile_sublist Char.isDigit).cons _).cons _).length_le
    · exact Nat.le_refl _
  · exact Nat.le_refl _

theorem startingWith?_length_le {c : Char} {cs : List Char} {l : Lexeme} {rest : List Char}
    (h : startingWith? c cs = some (l, rest)) : rest.length ≤ cs.length := by
  have hdrop (p : Char → Bool) (cs : List Char) : (cs.dropWhile p).length ≤ cs.length :=
    (List.dropWhile_sublist p).length_le
  have hnumber := numberAfter_length_le
  unfold startingWith? at h
  grind [Option.map_eq_some_iff]

/-- Cutting off a lexeme leaves a shorter text. -/
theorem first?_length_lt {cs : List Char} {l : Lexeme} {rest : List Char}
    (h : first? cs = some (l, rest)) : rest.length < cs.length := by
  cases cs with
  | nil => simp [first?] at h
  | cons c cs => exact Nat.lt_succ_of_le (startingWith?_length_le h)

/-! The symbols of a text. -/

/-- The symbol that a lexeme stands for; blanks and comments stand for none. -/
def symbol? : Lexeme → Option Symbol
  | .number whole fraction => some (.number (Decimal.value whole fraction))
  | .identifier name => some (.identifier (String.ofList name))
  | .sign s => some s
  | .lineBreak => some .newLine
  | .comment | .blank => none

/-- The line after a lexeme on the given line. -/
def lineAfter : Lexeme → Nat → Nat
  | .lineBreak, line => line + 1
  | _, line => line

end Lexeme

/-- The tokens of a text that begins on the given line. A token stands on the line on which it
begins, a line break on the line that it ends. -/
def tokensFrom (line : Nat) (cs : List Char) : Except ParseError (List Token) :=
  match h : Lexeme.first? cs with
  | some (lexeme, rest) =>
    have : rest.length < cs.length := Lexeme.first?_length_lt h
    match tokensFrom (lexeme.lineAfter line) rest with
    | .ok tokens =>
      match lexeme.symbol? with
      | some s => .ok (⟨s, line⟩ :: tokens)
      | none => .ok tokens
    | .error e => .error e
  | none =>
    match cs with
    | [] => .ok []
    | c :: _ => .error ⟨.unknownCharacter c, line⟩
termination_by cs.length

theorem tokensFrom_nil (line : Nat) : tokensFrom line [] = .ok [] := by
  rw [tokensFrom]
  rfl

/-- The tokens of a text are those of its first lexeme and those of the rest. -/
theorem tokensFrom_of_first? {cs rest : List Char} {l : Lexeme}
    (h : Lexeme.first? cs = some (l, rest)) (line : Nat) :
    tokensFrom line cs =
      (tokensFrom (l.lineAfter line) rest).map (l.symbol?.toList.map (⟨·, line⟩) ++ ·) := by
  rw [tokensFrom]
  split
  · next l' rest' h' =>
    rw [h] at h'
    cases h'
    cases tokensFrom (l.lineAfter line) rest with
    | error e => rfl
    | ok ts => cases l.symbol? <;> rfl
  · next hnone =>
    rw [h] at hnone
    cases hnone

theorem tokensFrom_of_none {c : Char} {cs : List Char} (h : Lexeme.first? (c :: cs) = none)
    (line : Nat) : tokensFrom line (c :: cs) = .error ⟨.unknownCharacter c, line⟩ := by
  rw [tokensFrom]
  split
  · next hsome =>
    rw [h] at hsome
    cases hsome
  · rfl

/-- The tokens of a text, or the first character at which no lexeme begins. -/
def tokenize (text : String) : Except ParseError (List Token) := tokensFrom 1 text.toList

end ExactLinear
