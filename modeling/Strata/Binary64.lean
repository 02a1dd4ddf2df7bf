/-!
# Binary64 numbers

Priorities and fractional numbers are IEEE 754 binary64 values, given here by
their bit patterns. Below the sign bit the pattern, read as a natural number,
grows with the absolute value; so both orders of the format are orders of
integers. `totalKey` orders every pattern, signed zeros and NaNs included, and
`numericKey` orders the numbers, with one key for the two zeros.
-/

namespace Strata

/-- A binary64 value, given by its bit pattern. -/
structure Binary64 where
  bits : UInt64
  deriving DecidableEq, Repr

namespace Binary64

/-- The weight of the sign bit. -/
def signWeight : Nat := 1 <<< 63

/-- The magnitude of the infinities; greater magnitudes are NaNs. -/
def infinityMagnitude : Nat := 2047 <<< 52

/-- The pattern with the given sign and the given bits below it. -/
def ofMagnitude (negative : Bool) (magnitude : Nat) : Binary64 :=
  ⟨UInt64.ofNat (magnitude + if negative then signWeight else 0)⟩

def zero : Binary64 := ofMagnitude false 0

def infinity : Binary64 := ofMagnitude false infinityMagnitude

def negInfinity : Binary64 := ofMagnitude true infinityMagnitude

/-- The quiet NaN without a payload. -/
def nan : Binary64 := ofMagnitude false (infinityMagnitude + (1 <<< 51))

/-- Whether the sign bit is set. -/
def isNegative (x : Binary64) : Bool :=
  signWeight ≤ x.bits.toNat

/-- The pattern below the sign bit. -/
def magnitude (x : Binary64) : Nat :=
  x.bits.toNat % signWeight

def isNaN (x : Binary64) : Bool :=
  infinityMagnitude < x.magnitude

def isFinite (x : Binary64) : Bool :=
  x.magnitude < infinityMagnitude

/-- The rank of a pattern in the total order: negative patterns below the
others and in reverse, so that -0.0 is just below 0.0 and the NaNs are at both ends. -/
def totalKey (x : Binary64) : Int :=
  if x.isNegative then -(x.magnitude : Int) - 1 else x.magnitude

/-- The total order on all patterns. -/
def compareTotal (x y : Binary64) : Ordering :=
  compare x.totalKey y.totalKey

/-- The rank of a number among the numbers; the two zeros share one rank. -/
def numericKey (x : Binary64) : Int :=
  if x.isNegative then -(x.magnitude : Int) else x.magnitude

/-- Numerically smaller. A NaN is not smaller than anything, nor anything than it. -/
def numericLt (x y : Binary64) : Bool :=
  !x.isNaN && !y.isNaN && x.numericKey < y.numericKey

/-- Numerically smaller or equal. -/
def numericLe (x y : Binary64) : Bool :=
  !x.isNaN && !y.isNaN && x.numericKey ≤ y.numericKey

/-- The significand `m` and exponent `q` of a finite value, whose absolute value is `m * 2 ^ q`. -/
def parts (x : Binary64) : Nat × Int :=
  let exponent : Nat := x.magnitude >>> 52
  let fraction : Nat := x.magnitude % (1 <<< 52)
  if exponent = 0 then (fraction, -1074)
  else (fraction + (1 <<< 52), (exponent : Int) - 1075)

end Binary64

end Strata
