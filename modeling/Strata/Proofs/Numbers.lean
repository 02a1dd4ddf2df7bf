import Mathlib.Data.EReal.Operations
import Strata.Proofs.Priorities

/-!
# The numbers that patterns stand for

A priority is compared by an integer key of its pattern. Here the patterns are read as the
format has it, as a significand times a power of two, an infinity or no number at all, and the
keys are shown to be in the order of those numbers.

The one fact about the format is that magnitudes count the numbers upwards. The next magnitude
either adds one to the significand, or starts the next exponent with the least significand;
both is a step up, for the subnormal numbers as well. Above the finite numbers stands infinity,
and signs turn the order around.
-/

namespace Strata.Binary64

/-! ### Finite magnitudes -/

/-- The absolute value of a finite magnitude, in multiples of the least number above zero. -/
def units (magnitude : Nat) : Nat :=
  if magnitude / 2 ^ 52 = 0 then magnitude
  else (magnitude % 2 ^ 52 + 2 ^ 52) * 2 ^ (magnitude / 2 ^ 52 - 1)

theorem units_lt_succ (magnitude : Nat) : units magnitude < units (magnitude + 1) := by
  have hfraction : magnitude % 2 ^ 52 < 2 ^ 52 := Nat.mod_lt _ (by decide)
  by_cases hlast : magnitude % 2 ^ 52 + 1 = 2 ^ 52
  · -- The fraction is full: the next exponent starts with the significand `2 ^ 52`.
    have hdiv : (magnitude + 1) / 2 ^ 52 = magnitude / 2 ^ 52 + 1 := by omega
    have hmod : (magnitude + 1) % 2 ^ 52 = 0 := by omega
    rw [units, units, hdiv, hmod, if_neg (Nat.succ_ne_zero _), Nat.zero_add, Nat.add_sub_cancel]
    split
    · next hsubnormal =>
        rw [hsubnormal, Nat.pow_zero, Nat.mul_one]
        omega
    · next hnormal =>
        obtain ⟨below, hbelow⟩ := Nat.exists_eq_succ_of_ne_zero hnormal
        rw [hbelow, Nat.succ_sub_one, Nat.pow_succ _ below, Nat.mul_comm (2 ^ below),
          ← Nat.mul_assoc]
        exact Nat.mul_lt_mul_of_pos_right (by omega) (Nat.two_pow_pos below)
  · have hdiv : (magnitude + 1) / 2 ^ 52 = magnitude / 2 ^ 52 := by omega
    have hmod : (magnitude + 1) % 2 ^ 52 = magnitude % 2 ^ 52 + 1 := by omega
    rw [units, units, hdiv, hmod]
    split
    · exact Nat.lt_succ_self magnitude
    · exact Nat.mul_lt_mul_of_pos_right (by omega) (Nat.two_pow_pos _)

theorem strictMono_units : StrictMono units :=
  strictMono_nat_of_lt_succ units_lt_succ

theorem parts_eq_units (x : Binary64) :
    (x.parts.1 : ℝ) * 2 ^ x.parts.2 = units x.magnitude * 2 ^ (-1074 : ℤ) := by
  rw [parts, Nat.shiftRight_eq_div_pow, Nat.one_shiftLeft, units]
  split
  · next hsubnormal =>
      have hmod : x.magnitude % 2 ^ 52 = x.magnitude := by omega
      rw [hmod]
  · next hnormal =>
      obtain ⟨below, hbelow⟩ := Nat.exists_eq_succ_of_ne_zero hnormal
      have hexponent : ((x.magnitude / 2 ^ 52 : Nat) : ℤ) - 1075 = (below : ℤ) + -1074 := by
        rw [hbelow]
        push_cast
        ring
      rw [hexponent, hbelow, Nat.succ_sub_one, zpow_add₀ two_ne_zero, zpow_natCast]
      push_cast
      ring

/-! ### Numbers -/

/-- The absolute value of a pattern that is not a NaN. -/
noncomputable def absolute (x : Binary64) : EReal :=
  if x.isFinite then ((x.parts.1 * 2 ^ x.parts.2 : ℝ) : EReal) else ⊤

noncomputable def signed (x : Binary64) : EReal :=
  if x.isNegative then -x.absolute else x.absolute

/-- The number that a pattern stands for; a NaN stands for none. -/
noncomputable def value? (x : Binary64) : Option EReal :=
  if x.isNaN then none else some x.signed

/-- Both are numbers, and the first is smaller. -/
def Below (x y : Binary64) : Prop :=
  ∃ a b, x.value? = some a ∧ y.value? = some b ∧ a < b

/-- Both are the same number. -/
def SameNumber (x y : Binary64) : Prop :=
  ∃ a, x.value? = some a ∧ y.value? = some a

variable {x y : Binary64}

theorem value?_eq_some_iff {a : EReal} :
    x.value? = some a ↔ x.isNaN = false ∧ x.signed = a := by
  rw [value?]
  cases x.isNaN <;> simp

theorem absolute_of_finite (h : x.isFinite = true) :
    x.absolute = ((units x.magnitude * 2 ^ (-1074 : ℤ) : ℝ) : EReal) := by
  rw [absolute, if_pos h, parts_eq_units]

theorem absolute_lt (hy : y.isNaN = false) (h : x.magnitude < y.magnitude) :
    x.absolute < y.absolute := by
  have hle := isNaN_eq_false_iff.mp hy
  have hx : x.isFinite = true := decide_eq_true (Nat.lt_of_lt_of_le h hle)
  rw [absolute_of_finite hx]
  cases hfinite : y.isFinite with
  | false =>
      rw [absolute, hfinite, if_neg Bool.false_ne_true]
      exact EReal.coe_lt_top _
  | true =>
      rw [absolute_of_finite hfinite, EReal.coe_lt_coe_iff]
      have hunits : (units x.magnitude : ℝ) < units y.magnitude :=
        Nat.cast_lt.mpr (strictMono_units h)
      exact mul_lt_mul_of_pos_right hunits (zpow_pos two_pos _)

theorem absolute_congr (h : x.magnitude = y.magnitude) : x.absolute = y.absolute := by
  rw [absolute, absolute, isFinite, isFinite, parts, parts, h]

theorem absolute_of_zero (h : x.magnitude = 0) : x.absolute = 0 := by
  have hfinite : x.isFinite = true := by
    rw [isFinite, h]
    decide
  rw [absolute_of_finite hfinite, h]
  simp [units]

theorem absolute_nonneg (x : Binary64) : 0 ≤ x.absolute := by
  rw [absolute]
  split
  · exact EReal.coe_nonneg.mpr (mul_nonneg (Nat.cast_nonneg _) (zpow_nonneg two_pos.le _))
  · exact le_top

theorem absolute_pos (hx : x.isNaN = false) (h : 0 < x.magnitude) : 0 < x.absolute := by
  have hzero : zero.magnitude = 0 := by decide +kernel
  rw [← absolute_of_zero hzero]
  exact absolute_lt hx (by omega)

/-- Numbers are in the order of their keys. -/
theorem signed_lt (hx : x.isNaN = false) (hy : y.isNaN = false)
    (h : x.numericKey < y.numericKey) : x.signed < y.signed := by
  rw [numericKey, numericKey] at h
  rw [signed, signed]
  cases hsignx : x.isNegative <;> cases hsigny : y.isNegative <;>
    simp only [hsignx, hsigny, if_true, Bool.false_eq_true, if_false] at h ⊢
  · exact absolute_lt hy (by omega)
  · omega
  · -- At least one of the two is not zero, or the keys would be equal.
    by_cases hpos : 0 < x.magnitude
    · have hneg : -x.absolute < 0 := EReal.neg_lt_zero.mpr (absolute_pos hx hpos)
      exact hneg.trans_le (absolute_nonneg y)
    · have hneg : -x.absolute ≤ 0 := EReal.neg_le_zero.mpr (absolute_nonneg x)
      exact hneg.trans_lt (absolute_pos hy (by omega))
  · exact EReal.neg_lt_neg_iff.mpr (absolute_lt hx (by omega))

theorem signed_congr (h : x.numericKey = y.numericKey) : x.signed = y.signed := by
  rw [numericKey, numericKey] at h
  rw [signed, signed]
  cases hsignx : x.isNegative <;> cases hsigny : y.isNegative <;>
    simp only [hsignx, hsigny, if_true, Bool.false_eq_true, if_false] at h ⊢
  · exact absolute_congr (by omega)
  · rw [absolute_of_zero (by omega : x.magnitude = 0), absolute_of_zero (by omega), neg_zero]
  · rw [absolute_of_zero (by omega : x.magnitude = 0), absolute_of_zero (by omega), neg_zero]
  · rw [absolute_congr (by omega : x.magnitude = y.magnitude)]

theorem signed_lt_iff (hx : x.isNaN = false) (hy : y.isNaN = false) :
    x.signed < y.signed ↔ x.numericKey < y.numericKey := by
  refine ⟨fun hlt => ?_, signed_lt hx hy⟩
  rcases Int.lt_trichotomy x.numericKey y.numericKey with h | h | h
  · exact h
  · exact absurd hlt (signed_congr h).not_lt
  · exact absurd hlt (signed_lt hy hx h).not_gt

/-- The comparison of keys is that of the numbers. -/
theorem numericLt_iff_below : x.numericLt y = true ↔ x.Below y := by
  simp only [numericLt_iff, Below, value?_eq_some_iff]
  constructor
  · rintro ⟨hx, hy, hlt⟩
    exact ⟨_, _, ⟨hx, rfl⟩, ⟨hy, rfl⟩, (signed_lt_iff hx hy).mpr hlt⟩
  · rintro ⟨_, _, ⟨hx, rfl⟩, ⟨hy, rfl⟩, hlt⟩
    exact ⟨hx, hy, (signed_lt_iff hx hy).mp hlt⟩

theorem numericallyEqual_iff_sameNumber : x.NumericallyEqual y ↔ x.SameNumber y := by
  simp only [NumericallyEqual, numericLe_iff, SameNumber, value?_eq_some_iff]
  constructor
  · rintro ⟨⟨hx, hy, hle⟩, -, -, hge⟩
    exact ⟨_, ⟨hx, rfl⟩, hy, signed_congr (Int.le_antisymm hge hle)⟩
  · rintro ⟨_, ⟨hx, rfl⟩, hy, hsame⟩
    have hle := (signed_lt_iff hy hx).not.mp hsame.not_lt
    have hge := (signed_lt_iff hx hy).not.mp hsame.not_gt
    exact ⟨⟨hx, hy, by omega⟩, hy, hx, by omega⟩

end Strata.Binary64
