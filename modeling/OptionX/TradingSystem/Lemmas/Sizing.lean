import OptionX.TradingSystem.Sizing

/-!
# What a percentage of a balance comes to

The rational percentage, its three roundings, and that each branch of `percentageUnits` computes them without leaving
64 bits.
-/

namespace OptionX.TradingSystem

open Lib.Machine

/-- Rounding of an exact amount of units. -/
def MoneyRounding.round : MoneyRounding → ℚ → ℤ
  | .down, x => ⌊x⌋
  | .halfUp, x => ⌊x + 1 / 2⌋
  | .up, x => ⌈x⌉

theorem MoneyRounding.round_mono (rounding : MoneyRounding) : Monotone rounding.round := by
  intro x y hxy
  cases rounding with
  | down => exact Int.floor_mono hxy
  | halfUp => exact Int.floor_mono (by linarith)
  | up => exact Int.ceil_mono hxy

@[simp] theorem MoneyRounding.round_intCast (rounding : MoneyRounding) (z : ℤ) : rounding.round z = z := by
  cases rounding with
  | down => simp [round]
  | halfUp =>
      simp only [round, Int.floor_eq_iff]
      constructor <;> linarith
  | up => simp [round]

theorem MoneyRounding.round_div (rounding : MoneyRounding) {n d : Nat} (hd : 0 < d) (heven : 2 ∣ d) :
    rounding.round (n / d) = (n / d : Nat) + (rounding.increments d (n % d)).toNat := by
  have hd' : (0 : ℚ) < d := by exact_mod_cast hd
  have hmod : n % d < d := Nat.mod_lt n hd
  have hsplit : (n : ℚ) / d = ((n / d : Nat) : ℚ) + ((n % d : Nat) : ℚ) / d := by
    rw [div_eq_iff hd'.ne', add_mul, div_mul_cancel₀ _ hd'.ne']
    exact_mod_cast (Nat.div_add_mod' n d).symm
  rw [hsplit]
  generalize n / d = q
  generalize n % d = f at hmod
  have hfrac : (f : ℚ) / d < 1 := by
    rw [div_lt_one hd']
    exact_mod_cast hmod
  have hnonneg : 0 ≤ (f : ℚ) / d := by positivity
  cases rounding with
  | down =>
      simp only [round, increments, Bool.toNat_false, Int.floor_eq_iff]
      push_cast
      constructor <;> linarith
  | halfUp =>
      obtain ⟨half, rfl⟩ := heven
      have hdiv : 2 * half / 2 = half := by omega
      simp only [round, increments, Int.floor_eq_iff, hdiv]
      have hhalf : half ≤ f ↔ (1 : ℚ) / 2 ≤ f / (2 * half : Nat) := by
        rw [div_le_div_iff₀ (by positivity) hd']
        constructor
        · intro h
          have : (half : ℚ) ≤ f := by exact_mod_cast h
          push_cast
          linarith
        · intro h
          push_cast at h
          have : (half : ℚ) ≤ f := by linarith
          exact_mod_cast this
      by_cases hf : half ≤ f
      · have := hhalf.mp hf
        simp only [hf, decide_true, Bool.toNat_true]
        push_cast at *
        constructor <;> linarith
      · have := mt hhalf.mpr hf
        simp only [hf, decide_false, Bool.toNat_false]
        push_cast at *
        constructor <;> linarith
  | up =>
      simp only [round, increments, Int.ceil_eq_iff]
      by_cases hf : f = 0
      · subst hf
        simp
      · have : (0 : ℚ) < f / d := by
          have : (0 : ℚ) < f := by exact_mod_cast Nat.pos_of_ne_zero hf
          positivity
        simp only [ne_eq, hf, not_false_iff, decide_true, Bool.toNat_true]
        push_cast
        constructor <;> linarith

/-! ## The branches of the computation -/

theorem powerOfTen_ok {precision : Nat} (h : precision ≤ 19) : powerOfTen precision = .ok (10 ^ precision) := by
  induction precision with
  | zero => rfl
  | succ precision ih =>
      have hpow : 10 ^ precision * 10 ≤ 10 ^ 19 := by
        rw [← pow_succ]
        exact Nat.pow_le_pow_right (by decide) h
      rw [powerOfTen, ih (by omega), ok_bind, u64_ok (by rw [uint64Max]; omega), pow_succ]

/-- A number where a word holds it. -/
def fits (n : Nat) : Option Nat := if n ≤ maxUnits then some n else none

theorem scaledUnits_eq {value basisPoints delta : Nat} (h4 : 4 ≤ delta) (h18 : delta ≤ 18) (hk : 0 < basisPoints)
    (hk' : basisPoints ≤ 10000) : scaledUnits value basisPoints delta =
      .ok (fits (value * (basisPoints * 10 ^ (delta - 4)))) := by
  have hpow : 10 ^ (delta - 4) ≤ 10 ^ 14 := Nat.pow_le_pow_right (by decide) (by omega)
  have hpos : 0 < 10 ^ (delta - 4) := by positivity
  rw [scaledUnits, powerOfTen_ok (by omega), ok_bind]
  generalize 10 ^ (delta - 4) = factor at *
  have hmul : basisPoints * factor ≤ 10000 * 10 ^ 14 := Nat.mul_le_mul hk' hpow
  have hmulpos : 0 < basisPoints * factor := Nat.mul_pos hk hpos
  rw [u64_ok (by rw [uint64Max]; omega), ok_bind]
  generalize basisPoints * factor = multiplier at *
  unfold fits
  by_cases hle : value * multiplier ≤ maxUnits
  · have hdiv : ¬ maxUnits / multiplier < value := by
      rw [Nat.div_lt_iff_lt_mul hmulpos]
      omega
    rw [if_neg hdiv, u64_ok (by rw [uint64Max]; unfold maxUnits at hle; omega), if_pos hle]
    rfl
  · have hdiv : maxUnits / multiplier < value := by
      rw [Nat.div_lt_iff_lt_mul hmulpos]
      omega
    rw [if_pos hdiv, if_neg hle]
    rfl

theorem dividedUnits_eq {value basisPoints delta : Nat} (rounding : MoneyRounding)
    (h4 : delta < 4) (hk : 0 < basisPoints) (hk' : basisPoints ≤ 10000) :
    dividedUnits value basisPoints delta rounding =
      .ok (fits (value * basisPoints / 10 ^ (4 - delta) +
        (rounding.increments (10 ^ (4 - delta)) (value * basisPoints % 10 ^ (4 - delta))).toNat)) := by
  have hpow : 10 ^ (4 - delta) ≤ 10 ^ 4 := Nat.pow_le_pow_right (by decide) (by omega)
  have hpos : 0 < 10 ^ (4 - delta) := by positivity
  rw [dividedUnits, powerOfTen_ok (by omega), ok_bind]
  dsimp only
  generalize 10 ^ (4 - delta) = denominator at *
  have hsplit : value * basisPoints =
      denominator * (value / denominator * basisPoints) + value % denominator * basisPoints := by
    conv_lhs => rw [← Nat.div_add_mod value denominator]
    ring
  have hquot : value * basisPoints / denominator =
      value / denominator * basisPoints + value % denominator * basisPoints / denominator := by
    rw [hsplit, Nat.mul_add_div hpos]
  have hrem : value * basisPoints % denominator = value % denominator * basisPoints % denominator := by
    rw [hsplit, Nat.mul_add_mod]
  have hprod : value % denominator * basisPoints ≤ 10000 * 10000 :=
    Nat.mul_le_mul (by have := Nat.mod_lt value hpos; omega) hk'
  have hint : value % denominator * basisPoints / denominator ≤ 10000 * 10000 :=
    (Nat.div_le_self _ _).trans hprod
  rw [hquot, hrem]
  clear hquot hrem hsplit
  generalize value % denominator * basisPoints = remainderProduct at *
  generalize hwhole : value / denominator * basisPoints = scaled
  generalize hintegral : remainderProduct / denominator = integral at *
  generalize hraised : (rounding.increments denominator (remainderProduct % denominator)).toNat = raised
  unfold fits
  by_cases hbig : maxUnits / basisPoints < value / denominator
  · have : maxUnits < scaled := by rwa [← hwhole, ← Nat.div_lt_iff_lt_mul hk]
    have hover : ¬ scaled + integral + raised ≤ maxUnits := by omega
    rw [if_pos hbig, if_neg hover]
    rfl
  · have hscaled : scaled ≤ maxUnits := by
      rw [Nat.div_lt_iff_lt_mul hk, hwhole] at hbig
      omega
    have hmax : integral ≤ maxUnits := by rw [maxUnits]; omega
    rw [if_neg hbig, u64_ok (by rw [uint64Max]; unfold maxUnits at hscaled; omega), ok_bind,
      u64_ok (by rw [uint64Max]; omega), ok_bind, hintegral, u64Sub_ok hmax, ok_bind]
    by_cases hover : maxUnits - integral < scaled
    · rw [if_pos hover, if_neg (by omega)]
      rfl
    · have hsum : scaled + integral ≤ maxUnits := by omega
      rw [if_neg hover, u64_ok (by rw [uint64Max]; unfold maxUnits at hsum; omega), ok_bind, ← hraised]
      cases rounding.increments denominator (remainderProduct % denominator) with
      | false => simp [hsum]
      | true =>
          by_cases hlast : scaled + integral = maxUnits
          · simp [hlast]
          · have hnext : scaled + integral + 1 ≤ maxUnits := by omega
            rw [u64_ok (by rw [uint64Max]; unfold maxUnits at hnext; omega)]
            simp [hlast, hnext]

/-! ## The percentage -/

/-- The percentage of a balance in units of the output precision, rounded once. -/
def exactUnits (balanceUnits : Int64) (balancePrecision outputPrecision : UInt8) (basisPoints : Int64)
    (rounding : MoneyRounding) : ℤ :=
  rounding.round (balanceUnits.toInt * basisPoints.toInt *
    10 ^ (outputPrecision.toNat - balancePrecision.toNat) / 10 ^ 4)

theorem unsignedUnits_eq {units : Int64} (h : 0 ≤ units.toInt) : (unsignedUnits units : ℤ) = units.toInt := by
  rw [unsignedUnits, Lib.int64_toUInt64]
  have := units.toInt_lt
  omega

theorem exactUnits_of_scaled (value basisPoints : Nat) {delta : Nat} (h4 : 4 ≤ delta) (rounding : MoneyRounding) :
    rounding.round (value * basisPoints * 10 ^ delta / 10 ^ 4) =
      (value * (basisPoints * 10 ^ (delta - 4)) : Nat) := by
  obtain ⟨rest, rfl⟩ := Nat.exists_eq_add_of_le h4
  have h : (value * basisPoints * 10 ^ (4 + rest) / 10 ^ 4 : ℚ) =
      ((value * (basisPoints * 10 ^ rest) : Nat) : ℤ) := by
    rw [pow_add]
    push_cast
    field_simp
  rw [h, MoneyRounding.round_intCast, Nat.add_sub_cancel_left]

theorem exactUnits_of_divided (value basisPoints : Nat) {delta : Nat} (h4 : delta < 4) (rounding : MoneyRounding) :
    rounding.round (value * basisPoints * 10 ^ delta / 10 ^ 4) =
      (value * basisPoints / 10 ^ (4 - delta) +
        (rounding.increments (10 ^ (4 - delta)) (value * basisPoints % 10 ^ (4 - delta))).toNat : Nat) := by
  have hpow : (10 : ℚ) ^ 4 = 10 ^ (4 - delta) * 10 ^ delta := by
    rw [← pow_add]
    congr 1
    omega
  have h : (value * basisPoints * 10 ^ delta / 10 ^ 4 : ℚ) =
      (value * basisPoints : Nat) / (10 ^ (4 - delta) : Nat) := by
    rw [hpow, mul_div_mul_right _ _ (by positivity)]
    push_cast
    rfl
  have heven : 2 ∣ 10 ^ (4 - delta) := dvd_pow (by decide) (by omega)
  rw [h, MoneyRounding.round_div rounding (by positivity) heven]
  push_cast
  rfl

theorem fits_map_ofNat (n : Nat) :
    (fits n).map Int64.ofNat = if (n : ℤ) ≤ int64Max then some (Int64.ofInt n) else none := by
  unfold fits
  by_cases h : n ≤ maxUnits
  · have : (n : ℤ) ≤ int64Max := by unfold int64Max; unfold maxUnits at h; omega
    rw [if_pos h, if_pos this]
    rfl
  · have : ¬ (n : ℤ) ≤ int64Max := by unfold int64Max; unfold maxUnits at h; omega
    rw [if_neg h, if_neg this]
    rfl

theorem percentageUnits_eq {balanceUnits basisPoints : Int64} {balancePrecision outputPrecision : UInt8}
    (rounding : MoneyRounding) (hb : 0 ≤ balanceUnits.toInt) (hle : balancePrecision ≤ outputPrecision)
    (hop : outputPrecision ≤ maxMoneyPrecision) (hk : 0 < basisPoints.toInt) (hk' : basisPoints.toInt ≤ 10000) :
    percentageUnits balanceUnits balancePrecision outputPrecision basisPoints rounding =
      .ok (if exactUnits balanceUnits balancePrecision outputPrecision basisPoints rounding ≤ int64Max then
        some (Int64.ofInt (exactUnits balanceUnits balancePrecision outputPrecision basisPoints rounding))
        else none) := by
  have hle' : balancePrecision.toNat ≤ outputPrecision.toNat := UInt8.le_iff_toNat_le.mp hle
  have hop' : outputPrecision.toNat ≤ 18 := UInt8.le_iff_toNat_le.mp hop
  have hguard : ¬ (balanceUnits < 0 ∨ maxMoneyPrecision < balancePrecision ∨ outputPrecision < balancePrecision ∨
      maxMoneyPrecision < outputPrecision ∨ basisPoints ≤ 0 ∨ 10000 < basisPoints) := by
    simp only [Int64.lt_iff_toInt_lt, Int64.le_iff_toInt_le, UInt8.lt_iff_toNat_lt, not_or, not_lt, not_le]
    refine ⟨hb, hle'.trans hop', hle', hop', hk, hk'⟩
  have hdelta : (outputPrecision - balancePrecision).toNat = outputPrecision.toNat - balancePrecision.toNat :=
    UInt8.toNat_sub_of_le _ _ hle
  have hvalue := unsignedUnits_eq hb
  have hpoints := unsignedUnits_eq hk.le
  rw [percentageUnits, if_neg hguard, hdelta]
  unfold exactUnits
  rw [← hvalue, ← hpoints]
  have hdelta18 : outputPrecision.toNat - balancePrecision.toNat ≤ 18 := by omega
  generalize outputPrecision.toNat - balancePrecision.toNat = delta at *
  dsimp only
  generalize unsignedUnits balanceUnits = value at *
  generalize unsignedUnits basisPoints = points at *
  have hp : 0 < points := by omega
  have hp' : points ≤ 10000 := by omega
  by_cases h4 : 4 ≤ delta
  · rw [if_pos h4, scaledUnits_eq h4 hdelta18 hp hp', ok_bind, fits_map_ofNat]
    have := exactUnits_of_scaled value points h4 rounding
    push_cast at this ⊢
    rw [this]
    rfl
  · rw [if_neg h4, dividedUnits_eq rounding (by omega) hp hp', ok_bind, fits_map_ofNat]
    have := exactUnits_of_divided value points (by omega : delta < 4) rounding
    push_cast at this ⊢
    rw [this]
    rfl

theorem exactUnits_mono {balanceUnits balanceUnits' basisPoints basisPoints' : Int64}
    (balancePrecision outputPrecision : UInt8) (rounding : MoneyRounding) (hb : 0 ≤ balanceUnits.toInt)
    (hb' : balanceUnits ≤ balanceUnits') (hk : 0 ≤ basisPoints.toInt) (hk' : basisPoints ≤ basisPoints') :
    exactUnits balanceUnits balancePrecision outputPrecision basisPoints rounding ≤
      exactUnits balanceUnits' balancePrecision outputPrecision basisPoints' rounding := by
  have hbq : (balanceUnits.toInt : ℚ) ≤ balanceUnits'.toInt := by exact_mod_cast Int64.le_iff_toInt_le.mp hb'
  have hkq : (basisPoints.toInt : ℚ) ≤ basisPoints'.toInt := by exact_mod_cast Int64.le_iff_toInt_le.mp hk'
  have hb0 : (0 : ℚ) ≤ balanceUnits.toInt := by exact_mod_cast hb
  have hk0 : (0 : ℚ) ≤ basisPoints.toInt := by exact_mod_cast hk
  have hb0' := hb0.trans hbq
  apply rounding.round_mono
  gcongr

theorem exactUnits_nonneg {balanceUnits basisPoints : Int64} (balancePrecision outputPrecision : UInt8)
    (rounding : MoneyRounding) (hb : 0 ≤ balanceUnits.toInt) (hk : 0 ≤ basisPoints.toInt) :
    0 ≤ exactUnits balanceUnits balancePrecision outputPrecision basisPoints rounding := by
  rw [← MoneyRounding.round_intCast rounding 0]
  apply rounding.round_mono
  have hb0 : (0 : ℚ) ≤ balanceUnits.toInt := by exact_mod_cast hb
  have hk0 : (0 : ℚ) ≤ basisPoints.toInt := by exact_mod_cast hk
  push_cast
  positivity

/-- At most the whole balance, in units of the output precision. -/
theorem exactUnits_le {balanceUnits basisPoints : Int64} (balancePrecision outputPrecision : UInt8)
    (rounding : MoneyRounding) (hb : 0 ≤ balanceUnits.toInt) (hk' : basisPoints.toInt ≤ 10000) :
    exactUnits balanceUnits balancePrecision outputPrecision basisPoints rounding ≤
      balanceUnits.toInt * 10 ^ (outputPrecision.toNat - balancePrecision.toNat) := by
  rw [← MoneyRounding.round_intCast rounding (balanceUnits.toInt * _)]
  apply rounding.round_mono
  have hb0 : (0 : ℚ) ≤ balanceUnits.toInt := by exact_mod_cast hb
  have hkq : (basisPoints.toInt : ℚ) ≤ 10 ^ 4 := by exact_mod_cast hk'
  rw [div_le_iff₀ (by positivity)]
  push_cast
  nlinarith [mul_le_mul_of_nonneg_left hkq
    (mul_nonneg hb0 (by positivity : (0 : ℚ) ≤ 10 ^ (outputPrecision.toNat - balancePrecision.toNat)))]

/-! ## A sized decision -/

theorem PercentOfBalance.evaluateBalance_sized {p : PercentOfBalance} {accountCurrency : CurrencyType}
    {balance amount : MoneyAmount} {d : SizingDecision}
    (h : p.evaluateBalance accountCurrency balance = .ok d) (hd : d.amount = some amount) :
    0 ≤ balance.units.toInt ∧ balance.precision ≤ p.outputPrecision ∧ amount.precision = p.outputPrecision ∧
      amount.currency = balance.currency ∧ 0 < amount.units.toInt ∧
      percentageUnits balance.units balance.precision p.outputPrecision p.basisPoints p.rounding =
        .ok (some amount.units) := by
  unfold evaluateBalance at h
  repeat' (split at h; · cases h; cases hd)
  rename_i hneg hzero hprecision
  cases hunits : percentageUnits balance.units balance.precision p.outputPrecision p.basisPoints p.rounding with
  | error e => rw [hunits] at h; cases h
  | ok units =>
      rw [hunits, ok_bind] at h
      cases units with
      | none => cases h; cases hd
      | some units =>
          dsimp only at h
          split at h
          · cases h; cases hd
          · rename_i hpos
            cases h
            cases hd
            simp only [Int64.lt_iff_toInt_lt, Int64.le_iff_toInt_le, not_lt, not_le] at hneg hpos
            exact ⟨hneg, UInt8.not_lt.mp hprecision, rfl, rfl, hpos, rfl⟩

theorem PercentOfBalance.evaluate_sized {Zone : Type} {p : PercentOfBalance} {context : TradingDecisionContext Zone}
    {amount : MoneyAmount} {d : SizingDecision} (h : p.evaluate context = .ok d) (hd : d.amount = some amount) :
    p.valid = true ∧ ∃ balance, context.account.balance = some balance ∧
      p.evaluateBalance context.account.currency balance = .ok d := by
  unfold evaluate at h
  split at h
  · cases h; cases hd
  · rename_i hvalid
    have hvalid : p.valid = true := by simpa using hvalid
    split at h
    · cases h; cases hd
    · cases h; cases hd
    · cases h; cases hd
    · cases h; cases hd
    · rename_i balance _ hbalance
      exact ⟨hvalid, balance, hbalance, h⟩

end OptionX.TradingSystem
