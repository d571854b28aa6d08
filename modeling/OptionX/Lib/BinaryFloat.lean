import Mathlib

/-!
# Rounding to a binary significand

The nearest number with so many significant bits, ties to even, as the rationals that such numbers are. The exponent has
no bounds: what overflows or is subnormal is left to those who use it.
-/

namespace Lib.BinaryFloat

def roundEven (q : ℚ) : ℤ :=
  if q - ⌊q⌋ = 1 / 2 then if ⌊q⌋ % 2 = 0 then ⌊q⌋ else ⌊q⌋ + 1 else round q

/-- The distance of neighbours with `precision` significant bits around `q`. -/
def ulp (precision : ℕ) (q : ℚ) : ℚ := 2 ^ (Int.log 2 |q| + 1 - precision)

def roundBinary (precision : ℕ) (q : ℚ) : ℚ :=
  if q = 0 then 0 else roundEven (q / ulp precision q) * ulp precision q

/-- Toward zero. -/
def truncate (q : ℚ) : ℤ := if 0 ≤ q then ⌊q⌋ else ⌈q⌉

@[simp] theorem roundEven_intCast (n : ℤ) : roundEven n = n := by
  simp [roundEven]

theorem ulp_pos (precision : ℕ) (q : ℚ) : 0 < ulp precision q := by
  unfold ulp
  positivity

/-- A multiple of the distance of its neighbours is not rounded. -/
theorem roundBinary_multiple {precision : ℕ} {q : ℚ} {n : ℤ} (h : q = n * ulp precision q) :
    roundBinary precision q = q := by
  unfold roundBinary
  split
  · next hzero => exact hzero.symm
  · have hquot : q / ulp precision q = n := by
      rw [div_eq_iff (ulp_pos precision q).ne']
      exact h
    rw [hquot, roundEven_intCast, ← h]

theorem roundBinary_of_lt {precision : ℕ} {m : ℤ} (hm : |m| < 2 ^ precision) (k : ℤ) :
    roundBinary precision (m * 2 ^ k) = m * 2 ^ k := by
  by_cases hzero : m = 0
  · simp [hzero, roundBinary]
  · have hlog : Int.log 2 |(m : ℚ) * 2 ^ k| < precision + k := by
      have hpos : 0 < |(m : ℚ) * 2 ^ k| := by positivity
      rw [← Int.lt_zpow_iff_log_lt Nat.one_lt_two hpos, abs_mul, Nat.cast_ofNat,
        abs_of_pos (by positivity : (0 : ℚ) < 2 ^ k), zpow_add₀ two_ne_zero, zpow_natCast]
      have hm' : |(m : ℚ)| < 2 ^ precision := by exact_mod_cast hm
      gcongr
    have hshift : (0 : ℤ) ≤ k - (Int.log 2 |(m : ℚ) * 2 ^ k| + 1 - precision) := by omega
    obtain ⟨j, hj⟩ := Int.eq_ofNat_of_zero_le hshift
    apply roundBinary_multiple (n := m * 2 ^ j)
    have hk : k = j + (Int.log 2 |(m : ℚ) * 2 ^ k| + 1 - precision) := by omega
    unfold ulp
    push_cast
    rw [mul_assoc, ← zpow_natCast, ← zpow_add₀ two_ne_zero, ← hk]

/-- Whole numbers that the significand holds, and their shifts, are not rounded. -/
theorem roundBinary_exact {precision : ℕ} (hprecision : 0 < precision) {m : ℤ} (hm : |m| ≤ 2 ^ precision) (k : ℤ) :
    roundBinary precision (m * 2 ^ k) = m * 2 ^ k := by
  rcases hm.lt_or_eq with hlt | heq
  · exact roundBinary_of_lt hlt k
  · have hone : |(1 : ℤ)| < 2 ^ precision := one_lt_pow₀ one_lt_two hprecision.ne'
    have hneg : |(-1 : ℤ)| < 2 ^ precision := by rwa [abs_neg]
    rcases abs_eq (by positivity) |>.mp heq with rfl | rfl
    · have h := roundBinary_of_lt hone (precision + k)
      rw [zpow_add₀ two_ne_zero, zpow_natCast] at h
      simpa using h
    · have h := roundBinary_of_lt hneg (precision + k)
      rw [zpow_add₀ two_ne_zero, zpow_natCast] at h
      simpa using h

theorem truncate_half (n : ℤ) : truncate (n / 2) = n.tdiv 2 := by
  unfold truncate
  split
  · next h =>
    have hn : 0 ≤ n := by
      have : (0 : ℚ) ≤ n := by linarith
      exact_mod_cast this
    rw [Int.tdiv_eq_ediv_of_nonneg hn]
    exact_mod_cast Rat.floor_intCast_div_natCast n 2
  · next h =>
    have hn : 0 ≤ -n := by
      have : (n : ℚ) < 0 := by linarith
      have : n < 0 := by exact_mod_cast this
      omega
    have hfloor : ⌊((-n : ℤ) : ℚ) / (2 : ℕ)⌋ = -n / (2 : ℕ) := Rat.floor_intCast_div_natCast (-n) 2
    rw [← neg_neg n, Int.neg_tdiv, Int.tdiv_eq_ediv_of_nonneg hn]
    push_cast at hfloor ⊢
    rw [neg_div, Int.ceil_neg, hfloor]

end Lib.BinaryFloat
