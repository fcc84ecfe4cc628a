/- Scalars are the rational numbers, always in lowest terms with a positive
   denominator, so equal scalars are the same scalar. This module holds their
   printed form and the passage to and from counts; arithmetic is that of `Rat`. -/
namespace ExactLinear

/-- An exact rational number. -/
abbrev Scalar := Rat

namespace Scalar

/-! The printed form. -/

/-- An integer as decimal digits after a sign for a negative one. -/
def integerText (n : Int) : String :=
  if n < 0 then "-" ++ Nat.repr n.natAbs else Nat.repr n.natAbs

/-- The numerator, followed by the denominator unless that is one. -/
def text (q : Scalar) : String :=
  if q.den = 1 then integerText q.num else integerText q.num ++ "/" ++ Nat.repr q.den

/-! Counts. -/

def ofCount (n : Nat) : Scalar := (n : Rat)

/-- The number of counts: a count is a machine word of 64 bits. -/
def countBound : Nat := 18446744073709551616

/-- The count that a scalar is, if it is a natural number below `countBound`. -/
def toCount? (q : Scalar) : Option Nat :=
  if q.den = 1 ∧ 0 ≤ q.num ∧ q.num.toNat < countBound then some q.num.toNat else none

end Scalar

end ExactLinear
