import Strata.Proofs.Numbers

/-!
# The order of precedences

Positions are found by halving and lists are kept sorted by comparing precedences, which is
right only if the comparison is a total order on all of them, whatever the priorities. Numeric
comparison would not do: a NaN is not even equal to itself, and the two zeros are equal without
being the same pattern.

The total order of the format mends both. `AtMost` states it by cases, as the format does: numbers
by their values, the zero with a sign in front of the other one, NaNs outside of all numbers and
among themselves by their bits, mirrored if they have a sign. The integer keys by which priorities
are compared are in just this order, and a pattern can be told from its key; so precedences,
compared by priority first, then by specificity and by ordinal, have all laws of an order, and
no two of them tie.
-/

namespace Strata

namespace Binary64

/-- Whether a NaN is quiet, by the highest bit of its fraction. -/
def isQuiet (x : Binary64) : Bool :=
  2 ^ 51 ≤ x.magnitude % 2 ^ 52

/-- The fraction of a NaN below its quiet bit. -/
def payload (x : Binary64) : Nat :=
  x.magnitude % 2 ^ 51

/-- NaNs without a sign: the signaling ones in front, and then by their payloads. -/
def NaNAtMost (x y : Binary64) : Prop :=
  x.isQuiet = false ∧ y.isQuiet = true ∨ x.isQuiet = y.isQuiet ∧ x.payload ≤ y.payload

/-- The total order on patterns: `x` is `y` or in front of it. Of one number there are two
patterns only if it is zero, so `same` keeps one order of the zeros and leaves out the other. -/
inductive AtMost (x y : Binary64) : Prop
  | below (h : x.Below y)
  | same (h : x.SameNumber y) (hsign : y.isNegative = true → x.isNegative = true)
  | negativeNaN (hx : x.isNaN = true) (hy : y.isNaN = false) (hsign : x.isNegative = true)
  | positiveNaN (hx : x.isNaN = false) (hy : y.isNaN = true) (hsign : y.isNegative = false)
  | oppositeNaNs (hx : x.isNaN = true) (hy : y.isNaN = true) (hsignx : x.isNegative = true)
      (hsigny : y.isNegative = false)
  | positiveNaNs (hx : x.isNaN = true) (hy : y.isNaN = true) (hsignx : x.isNegative = false)
      (hsigny : y.isNegative = false) (h : NaNAtMost x y)
  | negativeNaNs (hx : x.isNaN = true) (hy : y.isNaN = true) (hsignx : x.isNegative = true)
      (hsigny : y.isNegative = true) (h : NaNAtMost y x)

variable {x y : Binary64}

theorem totalKey_of_negative (h : x.isNegative = true) :
    x.totalKey = -(x.magnitude : Int) - 1 := by
  rw [totalKey, if_pos h]

theorem totalKey_of_positive (h : x.isNegative = false) : x.totalKey = x.magnitude := by
  rw [totalKey, h, if_neg Bool.false_ne_true]

/-- A pattern can be told from its key. -/
theorem totalKey_inj : x.totalKey = y.totalKey ↔ x = y := by
  refine ⟨fun h => ?_, congrArg totalKey⟩
  cases hx : x.isNegative <;> cases hy : y.isNegative <;>
    simp only [totalKey, hx, hy, if_true, Bool.false_eq_true, if_false] at h
  · exact eq_of_magnitude_eq (hx.trans hy.symm) (by omega)
  · omega
  · omega
  · exact eq_of_magnitude_eq (hx.trans hy.symm) (by omega)

/-- Above the infinities magnitudes differ in the quiet bit and the payload only. -/
theorem naNAtMost_iff (hx : x.isNaN = true) (hy : y.isNaN = true) :
    NaNAtMost x y ↔ x.magnitude ≤ y.magnitude := by
  have hinfinity : infinityMagnitude = 2047 * 2 ^ 52 := by decide
  have hxlow := isNaN_iff.mp hx
  have hylow := isNaN_iff.mp hy
  have hxhigh : x.magnitude < 2048 * 2 ^ 52 := Nat.mod_lt _ (by decide)
  have hyhigh : y.magnitude < 2048 * 2 ^ 52 := Nat.mod_lt _ (by decide)
  simp only [NaNAtMost, isQuiet, payload, decide_eq_true_iff, decide_eq_false_iff_not,
    decide_eq_decide]
  omega

theorem totalKey_lt_of_below (h : x.Below y) : x.totalKey < y.totalKey := by
  have hkey := (numericLt_iff.mp (numericLt_iff_below.mpr h)).2.2
  by_contra hnot
  have hback := numericKey_le_of_totalKey_le (Int.not_lt.mp hnot)
  omega

theorem totalKey_le_of_sameNumber (h : x.SameNumber y)
    (hsign : y.isNegative = true → x.isNegative = true) : x.totalKey ≤ y.totalKey := by
  rcases (numericallyEqual_iff_sameNumber.mpr h).eq_or_oppositeZeros with
    rfl | ⟨rfl, rfl⟩ | ⟨rfl, rfl⟩
  · exact le_rfl
  · decide +kernel
  · have hzero : zero.isNegative = true := hsign (by decide +kernel)
    exact absurd hzero (by decide +kernel)

theorem totalKey_le_of_atMost (h : x.AtMost y) : x.totalKey ≤ y.totalKey := by
  cases h with
  | below h => exact (totalKey_lt_of_below h).le
  | same h hsign => exact totalKey_le_of_sameNumber h hsign
  | negativeNaN hx hy hsign =>
      rw [isNaN_iff] at hx
      rw [isNaN_eq_false_iff] at hy
      rw [totalKey_of_negative hsign, totalKey]
      split <;> omega
  | positiveNaN hx hy hsign =>
      rw [isNaN_eq_false_iff] at hx
      rw [isNaN_iff] at hy
      rw [totalKey_of_positive hsign, totalKey]
      split <;> omega
  | oppositeNaNs hx hy hsignx hsigny =>
      rw [totalKey_of_negative hsignx, totalKey_of_positive hsigny]
      omega
  | positiveNaNs hx hy hsignx hsigny h =>
      rw [naNAtMost_iff hx hy] at h
      rw [totalKey_of_positive hsignx, totalKey_of_positive hsigny]
      omega
  | negativeNaNs hx hy hsignx hsigny h =>
      rw [naNAtMost_iff hy hx] at h
      rw [totalKey_of_negative hsignx, totalKey_of_negative hsigny]
      omega

theorem naNAtMost_total (x y : Binary64) : NaNAtMost x y ∨ NaNAtMost y x := by
  rcases Nat.le_total x.payload y.payload with hle | hle <;>
    cases hx : x.isQuiet <;> cases hy : y.isQuiet <;> simp [NaNAtMost, hx, hy, hle]

theorem atMost_total_of_numbers (hx : x.isNaN = false) (hy : y.isNaN = false) :
    x.AtMost y ∨ y.AtMost x := by
  have hvaluex : x.value? = some x.signed := value?_eq_some_iff.mpr ⟨hx, rfl⟩
  have hvaluey : y.value? = some y.signed := value?_eq_some_iff.mpr ⟨hy, rfl⟩
  rcases lt_trichotomy x.signed y.signed with hlt | heq | hgt
  · exact .inl (.below ⟨_, _, hvaluex, hvaluey, hlt⟩)
  · rw [← heq] at hvaluey
    cases hsign : x.isNegative with
    | true => exact .inl (.same ⟨_, hvaluex, hvaluey⟩ fun _ => hsign)
    | false => exact .inr (.same ⟨_, hvaluey, hvaluex⟩ fun h => by rw [hsign] at h; cases h)
  · exact .inr (.below ⟨_, _, hvaluey, hvaluex, hgt⟩)

theorem atMost_total_of_naNs (hx : x.isNaN = true) (hy : y.isNaN = true) :
    x.AtMost y ∨ y.AtMost x := by
  cases hsignx : x.isNegative <;> cases hsigny : y.isNegative
  · exact (naNAtMost_total x y).imp (.positiveNaNs hx hy hsignx hsigny)
      (.positiveNaNs hy hx hsigny hsignx)
  · exact .inr (.oppositeNaNs hy hx hsigny hsignx)
  · exact .inl (.oppositeNaNs hx hy hsignx hsigny)
  · exact (naNAtMost_total y x).imp (.negativeNaNs hx hy hsignx hsigny)
      (.negativeNaNs hy hx hsigny hsignx)

theorem atMost_total_of_naN (hx : x.isNaN = true) : x.AtMost y ∨ y.AtMost x := by
  cases hy : y.isNaN with
  | true => exact atMost_total_of_naNs hx hy
  | false =>
      cases hsign : x.isNegative with
      | true => exact .inl (.negativeNaN hx hy hsign)
      | false => exact .inr (.positiveNaN hy hx hsign)

theorem atMost_total (x y : Binary64) : x.AtMost y ∨ y.AtMost x := by
  cases hx : x.isNaN with
  | true => exact atMost_total_of_naN hx
  | false =>
      cases hy : y.isNaN with
      | true => exact (atMost_total_of_naN hy).symm
      | false => exact atMost_total_of_numbers hx hy

/-- The order of the keys is the total order. -/
theorem isLE_compareTotal_iff_atMost : (compareTotal x y).isLE = true ↔ x.AtMost y := by
  rw [isLE_compareTotal]
  refine ⟨fun hle => ?_, totalKey_le_of_atMost⟩
  rcases atMost_total x y with h | h
  · exact h
  · -- The other way round the keys are equal, and so are the patterns.
    obtain rfl := totalKey_inj.mp (Int.le_antisymm hle (totalKey_le_of_atMost h))
    exact h

/-- Equal numbers have equal patterns but for the zeros, and a NaN is not equal to anything. -/
theorem sameNumber_iff : x.SameNumber y ↔ x.OppositeZeros y ∨ x = y ∧ x.isNaN = false := by
  rw [← numericallyEqual_iff_sameNumber]
  constructor
  · intro h
    rcases h.eq_or_oppositeZeros with heq | hzeros
    · exact .inr ⟨heq, (numericLe_iff.mp h.1).1⟩
    · exact .inl hzeros
  · rintro ((⟨rfl, rfl⟩ | ⟨rfl, rfl⟩) | ⟨rfl, hx⟩)
    · decide +kernel
    · decide +kernel
    · have hle : x.numericLe x = true := numericLe_iff.mpr ⟨hx, hx, le_rfl⟩
      exact ⟨hle, hle⟩

end Binary64

namespace Precedence

variable {x y : Precedence}

theorem compare_eq_eq :
    compare x y = .eq ↔
      x.priority.bits = y.priority.bits ∧ x.specificity = y.specificity
        ∧ x.ordinal = y.ordinal := by
  have hbits : x.priority = y.priority ↔ x.priority.bits = y.priority.bits :=
    ⟨congrArg Binary64.bits, fun h => congrArg Binary64.mk h⟩
  rw [compare, Ordering.then_eq_eq, Ordering.then_eq_eq, Binary64.compareTotal_eq_eq,
    Binary64.totalKey_inj, hbits, Nat.compare_eq_eq, Nat.compare_eq_eq]

theorem compare_eq_lt_of_below (h : x.priority.Below y.priority) : compare x y = .lt := by
  rw [compare, Ordering.then_eq_lt, Binary64.compareTotal_eq_lt]
  exact .inl (Binary64.totalKey_lt_of_below h)

/-- Comparing precedences is a total order on all of them, NaNs and both zeros included. It ties
only if all three fields coincide, the priorities bit by bit; and `==` is just that, while equal
numbers may differ in sign and a NaN is not equal to itself. Priorities are compared by the total
order of the format, and where they are different numbers the other fields have no say. -/
theorem totally_ordered (x y z : Precedence) :
    compare x x = .eq
    ∧ (x.le y = true → y.le x = true → compare x y = .eq)
    ∧ (x.le y = true → y.le z = true → x.le z = true)
    ∧ (x.le y = true ∨ y.le x = true)
    ∧ compare y x = (compare x y).swap
    ∧ (compare x y = .eq ↔
        x.priority.bits = y.priority.bits ∧ x.specificity = y.specificity
          ∧ x.ordinal = y.ordinal)
    ∧ ((x == y) = true ↔ compare x y = .eq)
    ∧ (x.priority.SameNumber y.priority ↔
        x.priority.OppositeZeros y.priority
          ∨ x.priority = y.priority ∧ x.priority.isNaN = false)
    ∧ ((x.priority.compareTotal y.priority).isLE = true ↔ x.priority.AtMost y.priority)
    ∧ (x.priority.Below y.priority → compare x y = .lt) :=
  ⟨Std.ReflCmp.compare_self, Std.OrientedCmp.isLE_antisymm, le_trans, le_total x y,
    Std.OrientedCmp.eq_swap, compare_eq_eq, Ordering.isEq_iff_eq_eq, Binary64.sameNumber_iff,
    Binary64.isLE_compareTotal_iff_atMost, compare_eq_lt_of_below⟩

/-- The lowest number, with much of everything else. -/
def floorKey : Precedence :=
  ⟨.negInfinity, 15, 9⟩

/-- A priority of about minus ten to the three hundredth. -/
def lowKey : Precedence :=
  ⟨⟨0xfe37e43c8800759c⟩, 0, 0⟩

def nanKey : Precedence :=
  ⟨.nan, 0, 0⟩

theorem nanKey_last :
    floorKey.le lowKey = true ∧ lowKey.le nanKey = true ∧ floorKey.le nanKey = true
      ∧ floorKey.priority.Below lowKey.priority ∧ compare floorKey lowKey = .lt
      ∧ (nanKey == nanKey) = true ∧ ¬ nanKey.priority.SameNumber nanKey.priority := by
  have hfloor : floorKey.le lowKey = true := by decide +kernel
  have hlow : lowKey.le nanKey = true := by decide +kernel
  have hnan : nanKey.le nanKey = true := by decide +kernel
  have hbelow : floorKey.priority.Below lowKey.priority :=
    Binary64.numericLt_iff_below.mp (by decide +kernel)
  obtain ⟨-, -, htrans, -, -, -, -, -, -, hlt⟩ := totally_ordered floorKey lowKey nanKey
  obtain ⟨-, hantisymm, -, -, -, -, hbeq, hnumber, -⟩ := totally_ordered nanKey nanKey nanKey
  refine ⟨hfloor, hlow, htrans hfloor hlow, hbelow, hlt hbelow,
    hbeq.mpr (hantisymm hnan hnan), fun hsame => ?_⟩
  exact absurd (hnumber.mp hsame) (by decide +kernel)

end Precedence

end Strata
