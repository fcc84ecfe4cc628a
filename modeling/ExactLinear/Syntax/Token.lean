import ExactLinear.Scalar.Basic
import ExactLinear.Syntax.Tree

/- Tokens: the symbols that a program is made of, each with the line it stands
   on. Comments and white space other than line breaks are no symbols: they are cut
   off a text and dropped. -/
namespace ExactLinear

inductive Symbol where
  | number (value : Scalar)
  | identifier (name : String)
  | plus | minus | star | slash
  | openParen | closeParen | openBracket | closeBracket | openBrace | closeBrace
  | comma | equals | semicolon | newLine
  deriving DecidableEq, Repr

namespace Symbol

/-- The word for a symbol in the printed form of errors. -/
def word : Symbol → String
  | .number _ => "Number"
  | .identifier _ => "Identifier"
  | .plus => "Plus"
  | .minus => "Minus"
  | .star => "Star"
  | .slash => "Slash"
  | .openParen => "LParen"
  | .closeParen => "RParen"
  | .openBracket => "LBracket"
  | .closeBracket => "RBracket"
  | .openBrace => "LBrace"
  | .closeBrace => "RBrace"
  | .comma => "Comma"
  | .equals => "Equals"
  | .semicolon => "Semicolon"
  | .newLine => "NewLine"

/-- A symbol as errors show it: its word, followed by what a number or an identifier holds. -/
def text (s : Symbol) : String :=
  match s with
  | .number q =>
    s.word ++ "(Scalar(Ratio \x7b numer: " ++ Scalar.integerText q.num ++ ", denom: " ++
      Nat.repr q.den ++ " \x7d))"
  | .identifier name => s.word ++ "(\"" ++ name ++ "\")"
  | _ => s.word

/-- The operator that a sign stands for between two operands. -/
def operator? : Symbol → Option BinaryOp
  | .plus => some .add
  | .minus => some .sub
  | .star => some .mul
  | .slash => some .div
  | _ => none

/-- Whether a symbol separates statements. -/
def isSeparator : Symbol → Bool
  | .newLine | .semicolon => true
  | _ => false

end Symbol

structure Token where
  symbol : Symbol
  line : Nat
  deriving DecidableEq, Repr

end ExactLinear
