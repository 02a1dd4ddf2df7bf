import Strata.Precedence

/-!
# Priorities in two orders

Rules are stored by the total order of priorities, and external entries are
placed among them by the numeric comparisons. Both orders are orders of integer
keys, and the keys differ by one on negative patterns and by nothing elsewhere.
So the total order refines the numeric one: what ascends by `totalKey` ascends by
`numericKey`, and what is numerically below something is below it in the total
order as well. The converse fails on the two zeros alone, which share a numeric
key, and on NaNs, which the numeric comparisons refuse.

A precedence is compared key by key. `le_iff` and `lt_iff` say so once in
arithmetic, and whatever an order has to satisfy follows from them.
-/

namespace Strata

namespace Binary64

variable {x y z : Binary64}

theorem isLE_compareTotal :
    (compareTotal x y).isLE = true ↔ x.totalKey ≤ y.totalKey :=
  Int.isLE_compare

theorem compareTotal_eq_lt : compareTotal x y = .lt ↔ x.totalKey < y.totalKey :=
  Int.compare_eq_lt

theorem compareTotal_eq_eq : compareTotal x y = .eq ↔ x.totalKey = y.totalKey :=
  Int.compare_eq_eq

theorem isNaN_iff : x.isNaN = true ↔ infinityMagnitude < x.magnitude :=
  decide_eq_true_iff

theorem isNaN_eq_false_iff : x.isNaN = false ↔ x.magnitude ≤ infinityMagnitude := by
  rw [← Bool.not_eq_true, isNaN_iff, Nat.not_lt]

theorem numericLt_iff :
    x.numericLt y = true ↔
      x.isNaN = false ∧ y.isNaN = false ∧ x.numericKey < y.numericKey := by
  simp [numericLt, and_assoc]

theorem numericLe_iff :
    x.numericLe y = true ↔
      x.isNaN = false ∧ y.isNaN = false ∧ x.numericKey ≤ y.numericKey := by
  simp [numericLe, and_assoc]

/-- The total order refines the numeric one. -/
theorem numericKey_le_of_totalKey_le (h : x.totalKey ≤ y.totalKey) :
    x.numericKey ≤ y.numericKey := by
  simp only [totalKey, numericKey] at h ⊢
  cases hx : x.isNegative <;> cases hy : y.isNegative <;>
    simp only [hx, hy, if_true, Bool.false_eq_true, if_false] at h ⊢ <;> omega

theorem numericLe_of_totalKey_le (hx : x.isNaN = false) (hy : y.isNaN = false)
    (h : x.totalKey ≤ y.totalKey) : x.numericLe y = true :=
  numericLe_iff.mpr ⟨hx, hy, numericKey_le_of_totalKey_le h⟩

theorem numericLe_of_not_numericLt (hx : x.isNaN = false) (hy : y.isNaN = false)
    (h : ¬ y.numericLt x = true) : x.numericLe y = true := by
  rw [numericLt_iff] at h
  refine numericLe_iff.mpr ⟨hx, hy, ?_⟩
  have hkey : ¬ y.numericKey < x.numericKey := fun hlt => h ⟨hy, hx, hlt⟩
  omega

theorem numericLe_of_numericLt (h : x.numericLt y = true) : x.numericLe y = true := by
  obtain ⟨hx, hy, hlt⟩ := numericLt_iff.mp h
  exact numericLe_iff.mpr ⟨hx, hy, Int.le_of_lt hlt⟩

theorem not_numericLe_of_numericLt (h : x.numericLt y = true) : ¬ y.numericLe x = true := by
  rw [numericLt_iff] at h
  rw [numericLe_iff]
  omega

theorem numericLe_trans (hxy : x.numericLe y = true) (hyz : y.numericLe z = true) :
    x.numericLe z = true := by
  rw [numericLe_iff] at hxy hyz ⊢
  exact ⟨hxy.1, hyz.2.1, by omega⟩

theorem numericLt_of_le_of_lt (hxy : x.numericLe y = true) (hyz : y.numericLt z = true) :
    x.numericLt z = true := by
  rw [numericLe_iff] at hxy
  rw [numericLt_iff] at hyz ⊢
  exact ⟨hxy.1, hyz.2.1, by omega⟩

/-! ### Patterns by their keys -/

/-- A pattern is its sign bit in front of its magnitude. -/
theorem toNat_bits (x : Binary64) :
    x.bits.toNat = x.magnitude + if x.isNegative then signWeight else 0 := by
  have hlt : x.bits.toNat < 2 * signWeight := x.bits.toNat_lt
  rw [magnitude]
  by_cases hsign : signWeight ≤ x.bits.toNat
  · have hnegative : x.isNegative = true := by simpa [isNegative] using hsign
    rw [hnegative, if_pos rfl, Nat.mod_eq_sub_mod hsign, Nat.mod_eq_of_lt (by omega)]
    omega
  · have hnegative : x.isNegative = false := by simpa [isNegative] using hsign
    rw [hnegative, if_neg Bool.false_ne_true, Nat.mod_eq_of_lt (by omega), Nat.add_zero]

theorem eq_of_magnitude_eq (hsign : x.isNegative = y.isNegative)
    (h : x.magnitude = y.magnitude) : x = y := by
  have hbits : x.bits.toNat = y.bits.toNat := by rw [toNat_bits, toNat_bits, hsign, h]
  exact congrArg Binary64.mk (UInt64.toNat_inj.mp hbits)

/-! ### Equal numbers -/

/-- The zero whose sign bit is set. -/
def negZero : Binary64 := ofMagnitude true 0

/-- The same number, perhaps in two patterns. -/
def NumericallyEqual (x y : Binary64) : Prop :=
  x.numericLe y = true ∧ y.numericLe x = true

/-- The two zeros, in either order. -/
def OppositeZeros (x y : Binary64) : Prop :=
  x = negZero ∧ y = zero ∨ x = zero ∧ y = negZero

instance (x y : Binary64) : Decidable (NumericallyEqual x y) :=
  inferInstanceAs (Decidable (_ ∧ _))

instance (x y : Binary64) : Decidable (OppositeZeros x y) :=
  inferInstanceAs (Decidable (_ ∧ _ ∨ _ ∧ _))

theorem eq_negZero (hsign : x.isNegative = true) (h : x.magnitude = 0) : x = negZero :=
  eq_of_magnitude_eq (hsign.trans (by decide +kernel)) (h.trans (by decide +kernel))

theorem eq_zero (hsign : x.isNegative = false) (h : x.magnitude = 0) : x = zero :=
  eq_of_magnitude_eq (hsign.trans (by decide +kernel)) (h.trans (by decide +kernel))

/-- A number has one pattern, unless it is zero. -/
theorem NumericallyEqual.eq_or_oppositeZeros (h : NumericallyEqual x y) :
    x = y ∨ OppositeZeros x y := by
  have hkey : x.numericKey = y.numericKey :=
    Int.le_antisymm (numericLe_iff.mp h.1).2.2 (numericLe_iff.mp h.2).2.2
  simp only [numericKey] at hkey
  cases hx : x.isNegative <;> cases hy : y.isNegative <;>
    simp only [hx, hy, if_true, Bool.false_eq_true, if_false] at hkey
  · exact .inl (eq_of_magnitude_eq (hx.trans hy.symm) (by omega))
  · exact .inr (.inr ⟨eq_zero hx (by omega), eq_negZero hy (by omega)⟩)
  · exact .inr (.inl ⟨eq_negZero hx (by omega), eq_zero hy (by omega)⟩)
  · exact .inl (eq_of_magnitude_eq (hx.trans hy.symm) (by omega))

/-! ### The lowest priority -/

theorem numericKey_negInfinity : negInfinity.numericKey = -(infinityMagnitude : Int) := by
  decide +kernel

/-- A number has the key of minus infinity only if it is that, and no number has a lower
key. -/
theorem numericKey_le_negInfinity (hx : x.isNaN = false)
    (h : x.numericKey ≤ -(infinityMagnitude : Int)) :
    x = negInfinity ∧ x.numericKey = -(infinityMagnitude : Int) := by
  have hmagnitude := isNaN_eq_false_iff.mp hx
  have hpositive : 0 < infinityMagnitude := by decide
  rw [numericKey] at h ⊢
  cases hnegative : x.isNegative with
  | false =>
      rw [hnegative, if_neg Bool.false_ne_true] at h
      omega
  | true =>
      rw [hnegative, if_pos rfl] at h
      have hsame : x.magnitude = negInfinity.magnitude := by
        have hlow : negInfinity.magnitude = infinityMagnitude := by decide +kernel
        omega
      refine ⟨eq_of_magnitude_eq (hnegative.trans (by decide +kernel)) hsame, ?_⟩
      rw [if_pos rfl]
      omega

/-- Nothing is below minus infinity. -/
theorem not_numericLt_negInfinity : ¬ x.numericLt negInfinity = true := by
  intro h
  obtain ⟨hx, -, hlt⟩ := numericLt_iff.mp h
  rw [numericKey_negInfinity] at hlt
  have hkey := (numericKey_le_negInfinity hx (by omega)).2
  omega

/-- Nothing but minus infinity itself is at most that. -/
theorem numericLe_negInfinity_iff : x.numericLe negInfinity = true ↔ x = negInfinity := by
  constructor
  · intro h
    obtain ⟨hx, -, hle⟩ := numericLe_iff.mp h
    rw [numericKey_negInfinity] at hle
    exact (numericKey_le_negInfinity hx hle).1
  · rintro rfl
    decide +kernel

end Binary64

namespace Precedence

variable {x y z : Precedence}

theorem le_iff :
    x.le y = true ↔
      x.priority.totalKey < y.priority.totalKey
        ∨ x.priority.totalKey = y.priority.totalKey
          ∧ (x.specificity < y.specificity
            ∨ x.specificity = y.specificity ∧ x.ordinal ≤ y.ordinal) := by
  rw [le, compare, Ordering.isLE_then_iff_or, Ordering.isLE_then_iff_or,
    Binary64.compareTotal_eq_lt, Binary64.compareTotal_eq_eq, Nat.compare_eq_lt,
    Nat.compare_eq_eq, Nat.isLE_compare]

theorem lt_iff :
    x.lt y = true ↔
      x.priority.totalKey < y.priority.totalKey
        ∨ x.priority.totalKey = y.priority.totalKey
          ∧ (x.specificity < y.specificity
            ∨ x.specificity = y.specificity ∧ x.ordinal < y.ordinal) := by
  rw [lt, compare, Ordering.isLT_iff_eq_lt, Ordering.then_eq_lt, Ordering.then_eq_lt,
    Binary64.compareTotal_eq_lt, Binary64.compareTotal_eq_eq, Nat.compare_eq_lt,
    Nat.compare_eq_eq, Nat.compare_eq_lt]

theorem lt_trans (hxy : x.lt y = true) (hyz : y.lt z = true) : x.lt z = true := by
  rw [lt_iff] at hxy hyz ⊢
  omega

theorem lt_asymm (hxy : x.lt y = true) : ¬ y.lt x = true := by
  rw [lt_iff] at hxy ⊢
  omega

/-- The comparison is that of three keys, one after the other. -/
instance : Std.TransCmp compare :=
  inferInstanceAs (Std.TransCmp (compareLex (compareOn fun x : Precedence => x.priority.totalKey)
    (compareLex (compareOn specificity) (compareOn ordinal))))

theorem le_trans (hxy : x.le y = true) (hyz : y.le z = true) : x.le z = true :=
  Std.TransCmp.isLE_trans hxy hyz

theorem le_of_lt (h : x.lt y = true) : x.le y = true := by
  rw [lt_iff] at h
  rw [le_iff]
  omega

/-- What does not come before or at a place comes behind it. -/
theorem lt_of_not_le (h : ¬ x.le y = true) : y.lt x = true := by
  rw [le_iff] at h
  rw [lt_iff]
  omega

theorem le_total (x y : Precedence) : x.le y = true ∨ y.le x = true := by
  by_cases h : x.le y = true
  · exact .inl h
  · exact .inr (le_of_lt (lt_of_not_le h))

/-- An earlier ordinal leaves no room for a tie. -/
theorem lt_of_le_of_ordinal_lt (h : x.le y = true) (hordinal : x.ordinal < y.ordinal) :
    x.lt y = true := by
  rw [le_iff] at h
  rw [lt_iff]
  omega

end Precedence

end Strata
