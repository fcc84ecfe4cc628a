import ExactLinear.Scalar.Basic

/- Decimal numerals: one or more digits, then possibly a point and more
   digits. Their value is exact. Digits are the ten ASCII ones. A scalar that is not
   negative and whose denominator divides a power of ten has a numeral, with as few
   digits after the point as possible and no point if it needs none. -/
namespace ExactLinear.Decimal

/-! Reading. -/

/-- The value of the digits `whole` before the point and `fraction` after it:
all of them read as one natural number, over the power of ten that the point moves. -/
def value (whole fraction : List Char) : Scalar :=
  mkRat (Nat.ofDigitChars 10 (whole ++ fraction) 0) (Nat.pow 10 fraction.length)

/-- The text before the first point and the text after it. -/
def splitAtPoint (text : List Char) : List Char × List Char :=
  (text.takeWhile (· ≠ '.'), (text.dropWhile (· ≠ '.')).drop 1)

/-- Reads a whole text as a numeral. A point may end it; a sign, a second point
or a text without a digit in front is refused. -/
def read? (text : List Char) : Option Scalar :=
  let (whole, fraction) := splitAtPoint text
  if whole ≠ [] ∧ whole.all Char.isDigit ∧ fraction.all Char.isDigit then
    some (value whole fraction)
  else
    none

/-! Writing. -/

/-- That a scalar is a decimal fraction without a sign. -/
def Terminating (q : Scalar) : Prop := 0 ≤ q ∧ ∃ k, q.den ∣ Nat.pow 10 k

/-- How many digits after the point a scalar needs: the least exponent of a power of ten that the
denominator divides, which is not above the denominator. -/
def places (q : Scalar) : Nat :=
  ((List.range (q.den + 1)).find? fun k => Nat.pow 10 k % q.den == 0).getD 0

/-- A scalar times the power of ten that moves the point behind its last digit. -/
def shifted (q : Scalar) : Nat := q.num.toNat * (Nat.pow 10 (places q) / q.den)

/-- The last `k` digits of a number, zeros in front included. -/
def lastDigits : Nat → Nat → List Char
  | 0, _ => []
  | k + 1, n => lastDigits k (n / 10) ++ [Nat.digitChar (n % 10)]

def wholeDigits (q : Scalar) : List Char := Nat.toDigits 10 (shifted q / Nat.pow 10 (places q))

def fractionDigits (q : Scalar) : List Char := lastDigits (places q) (shifted q)

def numeral (q : Scalar) : List Char :=
  wholeDigits q ++ if places q = 0 then [] else '.' :: fractionDigits q

end ExactLinear.Decimal
