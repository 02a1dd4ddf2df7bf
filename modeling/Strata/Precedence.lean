import Strata.Binary64

/-!
# Precedence

Where a rule stands in the cascade: by priority in the total order of binary64
patterns, then by specificity, then by the order of registration. Rules are
merged in this order, so the greatest wins.
-/

namespace Strata

/-- The place of a rule among the rules of a module. -/
structure Precedence where
  priority : Binary64
  specificity : Nat
  ordinal : Nat
  deriving DecidableEq, Repr

namespace Precedence

/-- Priorities first, then specificities, then ordinals. -/
def compare (x y : Precedence) : Ordering :=
  (Binary64.compareTotal x.priority y.priority).then
    ((Ord.compare x.specificity y.specificity).then (Ord.compare x.ordinal y.ordinal))

/-- Whether `x` is merged before `y` or is it. -/
def le (x y : Precedence) : Bool :=
  (compare x y).isLE

/-- Whether `x` is merged before `y`. -/
def lt (x y : Precedence) : Bool :=
  (compare x y).isLT

/-- Equality is that of the order, so that the two zeros differ and a NaN equals itself. -/
instance : BEq Precedence where
  beq x y := (compare x y).isEq

end Precedence

end Strata
