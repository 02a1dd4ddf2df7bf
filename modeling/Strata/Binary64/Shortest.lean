import Strata.Binary64.Rounding

/-!
# Shortest decimal digits

The fewest decimal digits that read back as a given value, and among those the
nearest to it; a `Tie` says which are taken if two are equally near. The reals
that round to a value form an interval around it, whose ends belong to it
exactly when the significand is even. On the grid of the decimals with a given
number of digits, some point lies in the interval only if one of the value's two
neighbours on that grid does; so the search tries those two for one digit, two
digits and so on. Seventeen always suffice.

All comparisons are between natural numbers: the value, the two ends of the
interval and the grid are brought to a common denominator.
-/

namespace Strata.Binary64

/-- Which of two neighbours on a grid is taken for a value halfway between them. -/
inductive Tie
  | toEven
  | awayFromZero
  deriving DecidableEq, Repr

/-- The neighbour taken halfway between a number and the next one. -/
def Tie.choose (tie : Tie) (lower : Nat) : Nat :=
  match tie with
  | .toEven => lower + lower % 2
  | .awayFromZero => lower + 1

/-- Either way it is one of the two. -/
theorem Tie.choose_eq_or_eq (tie : Tie) (lower : Nat) :
    tie.choose lower = lower ∨ tie.choose lower = lower + 1 := by
  cases tie with
  | toEven => simp only [Tie.choose]; omega
  | awayFromZero => exact Or.inr rfl

/-- Exactly one of two neighbours is even. -/
theorem Tie.choose_toEven_mod_two (lower : Nat) : Tie.toEven.choose lower % 2 = 0 := by
  simp only [Tie.choose]
  omega

/-- Decimal digits with the place of the point: `0.d₁d₂… * 10 ^ point`. -/
structure Decimal where
  digits : Nat
  count : Nat
  point : Int
  deriving DecidableEq, Repr

/-- The interval of reals that round to a value: its ends and the value
itself, as numerators over one denominator. -/
structure Interval where
  low : Nat
  value : Nat
  high : Nat
  den : Nat
  closed : Bool

/-- The interval of the finite value `m * 2 ^ q`. Just below a power of two the
values are twice as dense, so there the lower end is half as far. -/
def interval (x : Binary64) : Interval :=
  let (m, q) := x.parts
  let below := if m = 1 <<< 52 && decide (-1074 < q) then 1 else 2
  let factor := 1 <<< (q - 2).toNat
  { low := (4 * m - below) * factor
    value := 4 * m * factor
    high := (4 * m + 2) * factor
    den := 1 <<< (2 - q).toNat
    closed := m % 2 = 0 }

/-- The `point` with `10 ^ (point - 1) ≤ num / den < 10 ^ point`. -/
def leadingPlace (num den : Nat) : Int :=
  if den ≤ num then decimalLength (num / den)
  else 1 - (decimalLength ((den - 1) / num) : Int)

/-- The nearer in the interval of the value's two neighbours with `count`
digits, if one is in it. -/
def Interval.neighbour? (i : Interval) (tie : Tie) (point : Int) (count : Nat) : Option Nat :=
  let up := Nat.pow 10 ((count : Int) - point).toNat
  let den := i.den * Nat.pow 10 (point - (count : Int)).toNat
  let value := i.value * up
  let lower := value / den
  let within (a b : Nat) : Bool := if i.closed then a ≤ b else a < b
  let lowerFits := within (i.low * up) (lower * den)
  let upperFits := within ((lower + 1) * den) (i.high * up)
  let toLower := value - lower * den
  let toUpper := (lower + 1) * den - value
  if lowerFits && upperFits then
    if toLower < toUpper then some lower
    else if toUpper < toLower then some (lower + 1)
    else some (tie.choose lower)
  else if lowerFits then some lower
  else if upperFits then some (lower + 1)
  else none

/-- The shortest digits of a finite value other than zero. -/
def shortest (x : Binary64) (tie : Tie) : Decimal :=
  let i := x.interval
  let point := leadingPlace i.value i.den
  let found := (List.range' 1 17).findSome? fun count =>
    (i.neighbour? tie point count).map fun digits => (digits, count)
  let (digits, count) := found.getD (i.value / i.den, 17)
  if digits = Nat.pow 10 count then ⟨1, 1, point + 1⟩ else ⟨digits, count, point⟩

end Strata.Binary64
