import Strata.Binary64

/-!
# Rounding to binary64

The nearest binary64 value of a ratio of natural numbers, ties going to the
even significand, computed exactly. A value with significand `m` and exponent
`q` has magnitude `(q + 1074) * 2 ^ 52 + m`, for normal and subnormal values
alike, and a significand that rounds up to `2 ^ 53` gives by the same formula
the next power of two; so no case of the format needs a branch of its own.
-/

namespace Strata.Binary64

/-- The quotient `num / den` rounded to a natural number, ties to even. -/
def divNearestEven (num den : Nat) : Nat :=
  let quotient := num / den
  let twice := 2 * (num % den)
  if twice < den then quotient
  else if den < twice then quotient + 1
  else quotient + quotient % 2

/-- The numerator and denominator of `num / den` divided by `2 ^ exponent`. -/
def scaled (num den : Nat) (exponent : Int) : Nat × Nat :=
  (num <<< (-exponent).toNat, den <<< exponent.toNat)

/-- The exponent at which the quotient has 53 significant bits, or the least
exponent of the format. -/
def fittingExponent (num den : Nat) : Int :=
  let guess := max ((Nat.log2 num : Int) - Nat.log2 den - 53) (-1074)
  let (n, d) := scaled num den guess
  if 1 <<< 53 ≤ n / d then guess + 1 else guess

/-- The value nearest to `num / den`; `den` is positive. -/
def ofRatio (negative : Bool) (num den : Nat) : Binary64 :=
  if num = 0 then ofMagnitude negative 0
  else
    let exponent := fittingExponent num den
    let (n, d) := scaled num den exponent
    let magnitude := ((exponent + 1074).toNat <<< 52) + divNearestEven n d
    ofMagnitude negative (min magnitude infinityMagnitude)

/-- The value nearest to an integer. -/
def ofInt (n : Int) : Binary64 :=
  ofRatio (n < 0) n.natAbs 1

/-- The number of decimal digits of `n`. -/
def decimalLength (n : Nat) : Nat :=
  (Nat.toDigits 10 n).length

/-- The value nearest to `digits * 10 ^ exponent`. Beyond the range of the
format the answer is infinity or zero, whatever the digits, and no power is
computed. -/
def ofDecimal (negative : Bool) (digits : Nat) (exponent : Int) : Binary64 :=
  if digits = 0 then ofMagnitude negative 0
  else
    let leading := (decimalLength digits : Int) + exponent
    if 310 < leading then ofMagnitude negative infinityMagnitude
    else if leading < -330 then ofMagnitude negative 0
    else ofRatio negative (digits * Nat.pow 10 exponent.toNat) (Nat.pow 10 (-exponent).toNat)

end Strata.Binary64
