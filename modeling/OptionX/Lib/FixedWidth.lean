import Mathlib

/-!
# Fixed-width integers read as integers

When a machine operation is the mathematical one, and what a conversion between signed and unsigned words
does to the value.
-/

namespace Lib

instance linearOrderUInt64 : LinearOrder UInt64 where
  le_refl := UInt64.le_refl
  le_trans _ _ _ := UInt64.le_trans
  le_antisymm _ _ := UInt64.le_antisymm
  le_total := UInt64.le_total
  lt_iff_le_not_ge a b := by
    simp only [UInt64.lt_iff_toNat_lt, UInt64.le_iff_toNat_le]
    omega
  toDecidableLE := inferInstance
  toDecidableLT := inferInstance
  toDecidableEq := inferInstance

instance linearOrderUInt32 : LinearOrder UInt32 where
  le_refl := UInt32.le_refl
  le_trans _ _ _ := UInt32.le_trans
  le_antisymm _ _ := UInt32.le_antisymm
  le_total := UInt32.le_total
  lt_iff_le_not_ge a b := by
    simp only [UInt32.lt_iff_toNat_lt, UInt32.le_iff_toNat_le]
    omega
  toDecidableLE := inferInstance
  toDecidableLT := inferInstance
  toDecidableEq := inferInstance

theorem int64_add {a b : Int64} (hl : -2 ^ 63 ≤ a.toInt + b.toInt)
    (hu : a.toInt + b.toInt < 2 ^ 63) : (a + b).toInt = a.toInt + b.toInt := by
  rw [Int64.toInt_add]
  exact Int.bmod_eq_of_le (by omega) (by omega)

theorem int64_sub {a b : Int64} (hl : -2 ^ 63 ≤ a.toInt - b.toInt)
    (hu : a.toInt - b.toInt < 2 ^ 63) : (a - b).toInt = a.toInt - b.toInt := by
  rw [Int64.toInt_sub]
  exact Int.bmod_eq_of_le (by omega) (by omega)

theorem int64_neg {a : Int64} (h : a.toInt ≠ -2 ^ 63) : (-a).toInt = -a.toInt := by
  have := a.le_toInt
  have := a.toInt_lt
  rw [Int64.toInt_neg]
  exact Int.bmod_eq_of_le (by omega) (by omega)

/-- A signed word converted to an unsigned one keeps its value modulo `2 ^ 64`. -/
theorem int64_toUInt64 (x : Int64) : (x.toUInt64.toNat : Int) = x.toInt % 2 ^ 64 := by
  have h := x.toBitVec.toInt_eq_toNat_cond
  have hx : x.toBitVec.toNat = x.toUInt64.toNat := Int64.toNat_toBitVec x
  have hlt := x.toUInt64.toNat_lt
  have hi : x.toBitVec.toInt = x.toInt := rfl
  rw [hx, hi] at h
  split at h <;> omega

/-- The unsigned difference of two signed words is their distance. -/
theorem int64_distance {a b : Int64} (h : b.toInt ≤ a.toInt) :
    ((a.toUInt64 - b.toUInt64).toNat : Int) = a.toInt - b.toInt := by
  have ha := int64_toUInt64 a
  have hb := int64_toUInt64 b
  have := a.le_toInt
  have := b.le_toInt
  have := a.toInt_lt
  have := b.toInt_lt
  have hlt := a.toUInt64.toNat_lt
  have hlt' := b.toUInt64.toNat_lt
  rw [UInt64.toNat_sub]
  omega

/-- The magnitude of a negative word, computed without overflow at the least word. -/
theorem int64_magnitude {x : Int64} (h : x.toInt < 0) :
    (((-(x + 1)).toUInt64 + 1).toNat : Int) = -x.toInt := by
  have hl := x.le_toInt
  have h1 : (x + 1).toInt = x.toInt + 1 := int64_add (by simp; omega) (by simp; omega)
  have h2 : (-(x + 1)).toInt = -(x.toInt + 1) := by
    rw [int64_neg (by omega), h1]
  have h3 := int64_toUInt64 (-(x + 1))
  rw [UInt64.toNat_add]
  simp only [UInt64.toNat_one]
  omega

/-- An unsigned word below `2 ^ 63` converted to a signed one keeps its value. -/
theorem uint64_toInt64 {x : UInt64} (h : x.toNat < 2 ^ 63) : x.toInt64.toInt = x.toNat := by
  have := int64_toUInt64 x.toInt64
  rw [UInt64.toUInt64_toInt64] at this
  have hl := x.toInt64.le_toInt
  have hu := x.toInt64.toInt_lt
  omega

end Lib
