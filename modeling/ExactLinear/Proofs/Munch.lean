import ExactLinear.Proofs.TokenLine

/- The tokens of a text are those of its pieces under maximal munch. One piece is cut
   off as the first lexeme is; the run over a text keeps the tokens of the pieces
   behind it and the line feeds that they hold. -/
namespace ExactLinear

namespace Lexeme
variable {p : Piece} {cs rest : List Char} {pieces : List Piece}

end Lexeme

open Lexeme

/-- A point without a digit behind it does not belong to the number. -/
example : tokenize "1.5//2\n1.x" = .error ⟨.unknownCharacter '.', 2⟩ := by cbv

end ExactLinear
