import OptionX.TradingSystem.Aggregator

/-!
# The two-limb net accumulator is exact

As long as each sign's magnitude stays below `2 ^ 128`, adding to the accumulator adds to its value and
`toUnits` returns that value whenever a signed word holds it.
-/

namespace OptionX.TradingSystem

/-! ## One magnitude -/

def Magnitude.value (m : Magnitude) : Nat := m.low.toNat + 2 ^ 64 * m.high.toNat

@[simp] theorem Magnitude.value_default : ({} : Magnitude).value = 0 := rfl

theorem Magnitude.value_add {m : Magnitude} {units : UInt64}
    (h : m.value + units.toNat < 2 ^ 128) : (m.add units).value = m.value + units.toNat := by
  have hu := units.toNat_lt
  have hl := m.low.toNat_lt
  have hh := m.high.toNat_lt
  have hlow : (m.low + units).toNat = (m.low.toNat + units.toNat) % 2 ^ 64 := UInt64.toNat_add _ _
  simp only [value] at h ⊢
  simp only [add, UInt64.lt_iff_toNat_lt, hlow]
  split
  · -- the low limb wrapped, so it lost `2 ^ 64` to the high one
    rw [UInt64.toNat_add, UInt64.toNat_one]
    omega
  · omega

theorem Magnitude.lessThan_iff {m other : Magnitude} :
    m.lessThan other = true ↔ m.value < other.value := by
  have h1 := m.low.toNat_lt
  have h2 := other.low.toNat_lt
  simp only [lessThan, value, Bool.or_eq_true, Bool.and_eq_true, decide_eq_true_eq, beq_iff_eq,
    UInt64.lt_iff_toNat_lt, ← UInt64.toNat_inj]
  omega

theorem Magnitude.value_subtract {m other : Magnitude} (h : other.value ≤ m.value) :
    (m.subtract other).value = m.value - other.value := by
  have h1 := m.low.toNat_lt
  have h2 := other.low.toNat_lt
  have h3 := m.high.toNat_lt
  have h4 := other.high.toNat_lt
  simp only [value] at h ⊢
  simp only [subtract, UInt64.lt_iff_toNat_lt]
  split
  · rw [UInt64.toNat_sub, UInt64.toNat_sub, UInt64.toNat_sub, UInt64.toNat_one]
    omega
  · rw [UInt64.toNat_sub, UInt64.toNat_sub, UInt64.toNat_sub, UInt64.toNat_zero]
    omega

/-! ## Both signs -/

def NetAccumulator.value (a : NetAccumulator) : Int := a.positive.value - a.negative.value

/-- The room an accumulator has used up, counted over both signs. -/
def NetAccumulator.weight (a : NetAccumulator) : Nat := a.positive.value + a.negative.value

@[simp] theorem NetAccumulator.value_default : ({} : NetAccumulator).value = 0 := rfl
@[simp] theorem NetAccumulator.weight_default : ({} : NetAccumulator).weight = 0 := rfl

theorem NetAccumulator.add_spec (a : NetAccumulator) (units : Int64)
    (h : a.weight + 2 ^ 63 < 2 ^ 128) :
    (a.add units).value = a.value + units.toInt ∧ (a.add units).weight ≤ a.weight + 2 ^ 63 := by
  have hl := units.le_toInt
  have hu := units.toInt_lt
  simp only [weight, value] at h ⊢
  by_cases hneg : units < 0
  · have hn : units.toInt < 0 := by simpa [Int64.lt_iff_toInt_lt] using hneg
    have hm := Lib.int64_magnitude hn
    have hv : (a.negative.add ((-(units + 1)).toUInt64 + 1)).value =
        a.negative.value + ((-(units + 1)).toUInt64 + 1).toNat :=
      Magnitude.value_add (by omega)
    simp only [add, if_pos hneg, hv]
    omega
  · have hn : 0 ≤ units.toInt := by simpa [Int64.lt_iff_toInt_lt] using hneg
    have hm := Lib.int64_toUInt64 units
    have hv : (a.positive.add units.toUInt64).value = a.positive.value + units.toUInt64.toNat :=
      Magnitude.value_add (by omega)
    simp only [add, if_neg hneg, hv]
    omega

/-- The magnitude that `toUnits` reads and the sign it gives it. -/
theorem NetAccumulator.magnitude_value (a : NetAccumulator) :
    (if a.positive.lessThan a.negative then a.negative.subtract a.positive
      else a.positive.subtract a.negative).value = a.value.natAbs := by
  by_cases h : a.positive.lessThan a.negative = true
  · have hv := Magnitude.lessThan_iff.mp h
    rw [if_pos h, Magnitude.value_subtract (by omega), value]
    omega
  · have hv : ¬ a.positive.value < a.negative.value := fun hlt => h (Magnitude.lessThan_iff.mpr hlt)
    rw [if_neg h, Magnitude.value_subtract (by omega), value]
    omega

theorem NetAccumulator.toUnits_spec (a : NetAccumulator) :
    (∀ u, a.toUnits = some u → u.toInt = a.value) ∧
      (a.toUnits = none ↔ ¬ (-2 ^ 63 ≤ a.value ∧ a.value < 2 ^ 63)) := by
  have hmag := a.magnitude_value
  have hneg : a.positive.lessThan a.negative = true ↔ a.value < 0 := by
    rw [Magnitude.lessThan_iff, value]
    omega
  have hmax : Int64.maxValue.toUInt64.toNat = 2 ^ 63 - 1 := rfl
  simp only [toUnits]
  generalize hm : (if a.positive.lessThan a.negative then a.negative.subtract a.positive
    else a.positive.subtract a.negative) = m at hmag ⊢
  have hlow := m.low.toNat_lt
  simp only [Magnitude.value] at hmag
  by_cases hs : a.positive.lessThan a.negative = true
  · have hv := hneg.mp hs
    have hlim : (Int64.maxValue.toUInt64 + 1).toNat = 2 ^ 63 := rfl
    simp only [hs, if_true, Bool.or_eq_true, bne_iff_ne, ne_eq, decide_eq_true_eq, Bool.true_and,
      beq_iff_eq, UInt64.lt_iff_toNat_lt, ← UInt64.toNat_inj, hlim, UInt64.toNat_zero]
    split
    · refine ⟨fun u hu => by simp at hu, ⟨fun _ => by omega, fun _ => rfl⟩⟩
    · split
      · have hmin : Int64.minValue.toInt = -2 ^ 63 := rfl
        refine ⟨fun u hu => ?_, ⟨fun h => by simp at h, fun _ => by omega⟩⟩
        rw [← Option.some.inj hu, hmin]
        omega
      · have hi : m.low.toInt64.toInt = m.low.toNat := Lib.uint64_toInt64 (by omega)
        refine ⟨fun u hu => ?_, ⟨fun h => by simp at h, fun _ => by omega⟩⟩
        rw [← Option.some.inj hu, Lib.int64_neg (by omega), hi]
        omega
  · have hv : ¬ a.value < 0 := fun h => hs (hneg.mpr h)
    have hlim : (Int64.maxValue.toUInt64 + 0).toNat = 2 ^ 63 - 1 := rfl
    simp only [hs, if_false, Bool.or_eq_true, bne_iff_ne, ne_eq, decide_eq_true_eq, Bool.false_and,
      Bool.false_eq_true, UInt64.lt_iff_toNat_lt, ← UInt64.toNat_inj, hlim, UInt64.toNat_zero]
    split
    · refine ⟨fun u hu => by simp at hu, ⟨fun _ => by omega, fun _ => rfl⟩⟩
    · have hi : m.low.toInt64.toInt = m.low.toNat := Lib.uint64_toInt64 (by omega)
      refine ⟨fun u hu => ?_, ⟨fun h => by simp at h, fun _ => by omega⟩⟩
      rw [← Option.some.inj hu, hi]
      omega

/-- An accumulated value that a signed word holds is what `toUnits` returns. -/
theorem NetAccumulator.toUnits_of_range {a : NetAccumulator} (hl : -2 ^ 63 ≤ a.value)
    (hu : a.value < 2 ^ 63) : a.toUnits = some (Int64.ofInt a.value) := by
  obtain ⟨hsome, hnone⟩ := a.toUnits_spec
  cases h : a.toUnits with
  | none => exact absurd ⟨hl, hu⟩ (hnone.mp h)
  | some u =>
      have hi : (Int64.ofInt a.value).toInt = a.value := Int64.toInt_ofInt_of_le hl hu
      rw [← Int64.toInt_inj.mp ((hsome u h).trans hi.symm)]

theorem NetAccumulator.toUnits_of_not_range {a : NetAccumulator}
    (h : ¬ (-2 ^ 63 ≤ a.value ∧ a.value < 2 ^ 63)) : a.toUnits = none :=
  (a.toUnits_spec).2.mpr h

end OptionX.TradingSystem
