import ExactLinear.Scalar.Basic

/- The causes for which an operation on scalars or matrices is refused. An error
   carries what was refused, not a sentence; its `message` is the one place where
   a sentence is made of it. Division is the one operation on scalars that can be
   refused, and is defined here. -/
namespace ExactLinear

/-- A number of rows and a number of columns. -/
structure Shape where
  rows : Nat
  cols : Nat
  deriving DecidableEq, Repr

/-- `2x3` for two rows of three. -/
def Shape.text (s : Shape) : String := s!"{s.rows}x{s.cols}"

/-- Why shapes do not fit. -/
inductive ShapeError where
  /-- No row or no column. -/
  | empty (shape : Shape)
  /-- A list of values that is not one value per entry. -/
  | unfilled (count : Nat) (shape : Shape)
  /-- The first row whose length differs from that of row 0. -/
  | ragged (row found expected : Nat)
  /-- More entries than can be counted in one machine word. -/
  | tooLarge (shape : Shape)
  | sum (left right : Shape)
  | difference (left right : Shape)
  | product (left right : Shape)
  | augmentation (left right : Shape)
  | notSquare (operation : String) (shape : Shape)
  | noVectors (operation : String)
  | noMatrices
  | lengths (vectors target : Shape)
  /-- A size for an identity matrix that is not from 1 to `largest`. -/
  | identitySize (largest : Nat) (found : Scalar)
  deriving DecidableEq, Repr

def ShapeError.message : ShapeError → String
  | .empty s => s!"a matrix needs at least one row and one column, found {s.text}"
  | .unfilled count s => s!"{count} values cannot fill a {s.text} matrix"
  | .ragged row found expected => s!"row {row} has {found} entries, expected {expected}"
  | .tooLarge s => s!"a {s.text} matrix is too large"
  | .sum l r => s!"cannot add {l.text} and {r.text}"
  | .difference l r => s!"cannot subtract {l.text} and {r.text}"
  | .product l r =>
    s!"cannot multiply {l.text} by {r.text}: inner dimensions {l.cols} and {r.rows} differ"
  | .augmentation l r => s!"cannot augment {l.text} with {r.text}: row counts differ"
  | .notSquare operation s => s!"{operation} needs a square matrix, found {s.text}"
  | .noVectors operation => s!"{operation} needs at least one vector"
  | .noMatrices => "augment needs at least one matrix"
  | .lengths v t => s!"spans needs vectors of equal length, found {v.text} and {t.text}"
  | .identitySize largest found =>
    s!"identity needs a size from 1 to {largest}, found {Scalar.text found}"

/-- Why an operation on scalars or matrices has no result. -/
inductive AlgebraError where
  | divisionByZero
  | shape (mismatch : ShapeError)
  | singular
  deriving DecidableEq, Repr

def AlgebraError.message : AlgebraError → String
  | .divisionByZero => "Division by zero."
  | .shape mismatch => s!"Dimension mismatch: {mismatch.message}."
  | .singular => "Matrix is singular and has no inverse."

/-- A request that no caller should make: for a row or column that is not there, or for more
than can be held. Callers that check first never meet one. -/
inductive Fault where
  | entry (row col : Nat) (shape : Shape)
  | row (row : Nat) (shape : Shape)
  | noColumns
  | noRows
  /-- More items than one list can hold. -/
  | tooMany (count : Nat)
  deriving DecidableEq, Repr

/-- The sentence for a fault; a row out of range and a list too long have none of their own. -/
def Fault.message? : Fault → Option String
  | .entry i j s => some s!"({i}, {j}) is outside a {s.text} matrix"
  | .row .. | .tooMany _ => none
  | .noColumns => some "at least one column must be selected"
  | .noRows => some "at least one row must be selected"

/-! Division of scalars, refused when the divisor is zero. -/

namespace Scalar

/-- `num / den` in lowest terms. -/
def ofParts (num den : Int) : Except AlgebraError Scalar :=
  if den = 0 then .error .divisionByZero else .ok (Rat.divInt num den)

def divide (a b : Scalar) : Except AlgebraError Scalar :=
  if b = 0 then .error .divisionByZero else .ok (a / b)

def reciprocal (a : Scalar) : Except AlgebraError Scalar := divide 1 a

end Scalar

end ExactLinear
