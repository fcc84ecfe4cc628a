import ExactLinear.Syntax.Token

/- Why a text is not a program, and on which line. -/
namespace ExactLinear

inductive ParseCause where
  /-- A character with which no symbol begins. -/
  | unknownCharacter (c : Char)
  | unexpected (found : Symbol)
  /-- A row of a matrix does not begin with a bracket. -/
  | rowExpected (found : Symbol)
  | emptyMatrix
  | emptyRow
  /-- The text ends within a construct; more text may complete it. -/
  | endOfInput
  | parenExpected
  | bracketExpected
  | unknownFunction (name : String)
  /-- A symbol after a complete statement that is neither a separator nor the end. -/
  | trailing (found : Symbol)
  /-- An assignment to the name of a builtin function. -/
  | reserved (name : String)
  deriving DecidableEq, Repr

structure ParseError where
  cause : ParseCause
  line : Nat
  deriving DecidableEq, Repr

def ParseCause.text : ParseCause → String
  | .unknownCharacter c => "Unexpected token: " ++ c.toString ++ "."
  | .unexpected found => "Unexpected token: " ++ found.text ++ "."
  | .rowExpected found =>
    "Unexpected token: Expected '[' to start a matrix row, found " ++ found.text ++ "."
  | .emptyMatrix => "Unexpected token: empty matrix literal '[]'."
  | .emptyRow => "Unexpected token: empty matrix row '[]'."
  | .endOfInput => "Unexpected end of input."
  | .parenExpected => "Expected closing parenthesis ')' but none found."
  | .bracketExpected => "Expected closing bracket ']' but none found."
  | .unknownFunction name => "Unknown function '" ++ name ++ "'."
  | .trailing found => "Extra tokens after statement. Check your input: " ++ found.text
  | .reserved name => "Identifier " ++ name ++ " is reserved."

namespace ParseError

def message (e : ParseError) : String :=
  "Error on line " ++ Nat.repr e.line ++ ": " ++ e.cause.text

/-- Whether more text may turn the failure into a success. -/
def isIncomplete (e : ParseError) : Bool := e.cause == .endOfInput

end ParseError

end ExactLinear
