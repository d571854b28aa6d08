import OptionX.TradingSystem.Lemmas.Filters
import OptionX.TradingSystem.Lemmas.MoneyText

/-!
# The policies

What the sizing policies, the decimal money texts and the filters do for every input.
-/

namespace OptionX.TradingSystem

open Lib.Machine

/-- The percentage is the exact rational one, rounded once: nothing is lost in 64 bits, and only what does not fit is
refused. -/
theorem percentage_exact {Zone : Type} (balanceUnits basisPoints : Int64) (balancePrecision outputPrecision : UInt8)
    (rounding : MoneyRounding) (hbalance : 0 ≤ balanceUnits) (hprecision : balancePrecision ≤ outputPrecision)
    (hmax : outputPrecision ≤ maxMoneyPrecision) (hpositive : 1 ≤ basisPoints) (hpoints : basisPoints ≤ 10000) :
    let exact := exactUnits balanceUnits balancePrecision outputPrecision basisPoints rounding
    percentageUnits balanceUnits balancePrecision outputPrecision basisPoints rounding =
        .ok (if exact ≤ int64Max then some (Int64.ofInt exact) else none) ∧
      (∀ balanceUnits', balanceUnits ≤ balanceUnits' →
        exact ≤ exactUnits balanceUnits' balancePrecision outputPrecision basisPoints rounding) ∧
      (∀ basisPoints', basisPoints ≤ basisPoints' →
        exact ≤ exactUnits balanceUnits balancePrecision outputPrecision basisPoints' rounding) ∧
      ∀ (policy : PercentOfBalance) (context : TradingDecisionContext Zone) (d : SizingDecision)
        (amount : MoneyAmount), policy.evaluate context = .ok d → d.amount = some amount →
        ∃ balance, context.account.balance = some balance ∧ amount.currency = balance.currency ∧
          amount.precision = policy.outputPrecision ∧
          amount.units.toInt = exactUnits balance.units balance.precision policy.outputPrecision policy.basisPoints
            policy.rounding ∧
          0 < amount.units.toInt ∧
          amount.units.toInt ≤
            balance.units.toInt * 10 ^ (policy.outputPrecision.toNat - balance.precision.toNat) := by
  intro exact
  have hb : 0 ≤ balanceUnits.toInt := Int64.le_iff_toInt_le.mp hbalance
  have hk : 1 ≤ basisPoints.toInt := Int64.le_iff_toInt_le.mp hpositive
  have hk' : basisPoints.toInt ≤ 10000 := Int64.le_iff_toInt_le.mp hpoints
  refine ⟨percentageUnits_eq rounding hb hprecision hmax (by omega) hk', ?_, ?_, ?_⟩
  · intro balanceUnits' h
    exact exactUnits_mono _ _ rounding hb h (by omega) (Int64.le_refl _)
  · intro basisPoints' h
    exact exactUnits_mono _ _ rounding hb (Int64.le_refl _) (by omega) h
  · intro policy context d amount hd hamount
    obtain ⟨hvalid, balance, hbal, heval⟩ := PercentOfBalance.evaluate_sized hd hamount
    obtain ⟨hneg, hprec, hout, hcur, hpos, hunits⟩ := PercentOfBalance.evaluateBalance_sized heval hamount
    simp only [PercentOfBalance.valid, Bool.and_eq_true, decide_eq_true_eq] at hvalid
    obtain ⟨hlow, hhigh⟩ := policy.inRange hvalid.1
    have hlow' : 0 < policy.basisPoints.toInt := Int64.lt_iff_toInt_lt.mp hlow
    have hhigh' : policy.basisPoints.toInt ≤ 10000 := Int64.le_iff_toInt_le.mp hhigh
    rw [percentageUnits_eq _ hneg hprec hvalid.2 hlow' hhigh'] at hunits
    have hle := exactUnits_le balance.precision policy.outputPrecision policy.rounding hneg hhigh'
    have hnonneg := exactUnits_nonneg balance.precision policy.outputPrecision policy.rounding hneg hlow'.le
    split at hunits
    · rename_i hfits
      have hexact : amount.units = Int64.ofInt (exactUnits balance.units balance.precision policy.outputPrecision
          policy.basisPoints policy.rounding) := by simpa using hunits.symm
      have hvalue : amount.units.toInt = exactUnits balance.units balance.precision policy.outputPrecision
          policy.basisPoints policy.rounding := by
        rw [hexact]
        exact Int64.toInt_ofInt_of_le (by omega) (by unfold int64Max at hfits; omega)
      exact ⟨balance, hbal, hcur, hout, hvalue, hpos, hvalue ▸ hle⟩
    · cases hunits

theorem percentage_exact_third : percentageUnits 1000 2 2 3333 .halfUp = .ok (some 333) := by
  have h := (@percentage_exact Unit 1000 3333 2 2 .halfUp (by decide) (by decide) (by decide) (by decide)
    (by decide)).1
  have hexact : exactUnits 1000 2 2 3333 .halfUp = 333 := by
    have hb : Int64.toInt 1000 = 1000 := rfl
    have hk : Int64.toInt 3333 = 3333 := rfl
    simp only [exactUnits, MoneyRounding.round, Int.floor_eq_iff, hb, hk]
    constructor <;> norm_num
  rw [h, hexact]
  rfl

/-! ## Money as text -/

/-- A decimal text is read exactly when its value is a whole number of units in range, and what is written is read
back. -/
theorem MoneyAmount.decimal_exact (text : List Char) (currency : CurrencyType) (precision : UInt8)
    (hcurrency : currency ≠ .unknown) (hprecision : precision ≤ maxMoneyPrecision) :
    (∃ result, fromDecimal text currency precision = .ok result ∧ ∀ m, result = some m ↔
      ∃ (n : Lib.Decimal.Numeral) (units : ℤ), n.text = text ∧ n.toRat * 10 ^ precision.toNat = units ∧
        int64Min ≤ units ∧ units ≤ int64Max ∧ m = { units := Int64.ofInt units, precision, currency }) ∧
      ∀ m : MoneyAmount, m.validMetadata = true →
        ∃ written, m.toDecimal = .ok written ∧ fromDecimal written m.currency m.precision = .ok (some m) := by
  constructor
  · cases hparts : decimalParts text with
    | none =>
        refine ⟨none, ?_, fun m => ⟨nofun, ?_⟩⟩
        · unfold fromDecimal
          split
          · rfl
          · rw [hparts]
        · rintro ⟨n, units, rfl, -⟩
          rw [decimalParts_text] at hparts
          cases hparts
    | some parts =>
        obtain ⟨negative, whole, decimals⟩ := parts
        refine ⟨_, fromDecimal_eq hparts hcurrency hprecision, fun m => ⟨fun h => ?_, ?_⟩⟩
        · obtain ⟨stored, hstored, rfl⟩ := Option.map_eq_some_iff.mp h
          have hdigits := storedUnits_digits hstored
          obtain ⟨n, htext, hsign, rfl, rfl⟩ := decimalParts_some hparts hdigits.1 hdigits.2
          rw [← hsign, storedUnits_eq_some] at hstored
          obtain ⟨units, hunits, hl, hu, rfl⟩ := hstored
          exact ⟨n, units, htext, hunits, hl, hu, rfl⟩
        · rintro ⟨n, units, rfl, hunits, hl, hu, rfl⟩
          rw [decimalParts_text] at hparts
          cases hparts
          rw [storedUnits_eq_some.mpr ⟨units, hunits, hl, hu, rfl⟩]
          rfl
  · intro m hm
    refine ⟨_, toDecimal_eq hm, ?_⟩
    have hl := m.units.le_toInt
    have hu := m.units.toInt_lt
    have hstored := storedUnits_eq_some.mpr ⟨_, writtenNumeral_toRat m.units m.precision.toNat, hl,
      Int.le_sub_one_of_lt hu, rfl⟩
    simp only [validMetadata, Bool.and_eq_true, decide_eq_true_eq, bne_iff_ne] at hm
    rw [fromDecimal_eq (decimalParts_text _) hm.2 hm.1, hstored, Int64.ofInt_toInt]
    rfl

/-- The least word is written and read back. -/
theorem MoneyAmount.decimal_exact_least :
    ∃ written, (MoneyAmount.mk Int64.minValue 18 .usd).toDecimal = .ok written ∧
      fromDecimal written .usd 18 = .ok (some ⟨Int64.minValue, 18, .usd⟩) :=
  (MoneyAmount.decimal_exact [] .usd 18 (by decide) (by decide)).2 ⟨Int64.minValue, 18, .usd⟩ (by decide)

/-! ## Trading windows -/

/-- The filter allows exactly the local instants that no denied occurrence covers, and that an allowed occurrence covers
whose starting day is permitted; without allowed windows the local day itself has to be permitted. -/
theorem TradingWindowFilter.allows_iff {Zone : Type} (shield : Records.TimeShield Zone) (secOfDay : Int → Int)
    (hsecond : ∀ localSec, secOfDay localSec = civilSecond localSec)
    (hweekday : ∀ localSec, shield.weekdayOfTs localSec = weekdayOfDay (civilDay localSec))
    (f : TradingWindowFilter) (hvalid : f.valid = true) (context : TradingDecisionContext Zone)
    (utcMs localMs : Int) (htime : context.evaluationTimeMs = some utcMs)
    (hlocal : context.timeZone.tryToLocalMs shield utcMs = some localMs) :
    (f.evaluate shield secOfDay context).isAllowed = true ↔
      (∀ w ∈ f.deniedWindows, ∀ day, ¬ w.Covers day (shield.msToSec localMs)) ∧
      ((f.allowedWindows = [] ∧ (f.allowedWeekdays = [] ∨
          weekdayOfDay (civilDay (shield.msToSec localMs)) ∈ f.allowedWeekdays)) ∨
        ∃ w ∈ f.allowedWindows, ∃ day, w.Covers day (shield.msToSec localMs) ∧
          (f.allowedWeekdays = [] ∨ weekdayOfDay day ∈ f.allowedWeekdays)) := by
  obtain ⟨hallowed, hdenied, -⟩ := valid_iff.mp hvalid
  unfold evaluate
  simp only [hvalid, htime, hlocal, hsecond, hweekday]
  generalize shield.msToSec localMs = localSec
  have hcovers : ∀ w : TradingTimeWindow, w.valid = true → ((∃ day, w.Covers day localSec) ↔
      w.contains (civilSecond localSec).toNat = true) := by
    intro w hw
    simp [TradingTimeWindow.covers_iff hw]
  by_cases hdeny : f.deniedWindows.any (·.contains (civilSecond localSec).toNat) = true
  · have hcovered : ¬ ∀ w ∈ f.deniedWindows, ∀ day, ¬ w.Covers day localSec := by
      obtain ⟨w, hw, hcontains⟩ := List.any_eq_true.mp hdeny
      obtain ⟨day, hday⟩ := (hcovers w (hdenied w hw)).mpr hcontains
      exact fun h => h w hw day hday
    simp [hdeny, hcovered, PolicyDecision.isAllowed, PolicyDecision.reject]
  · have hclear : ∀ w ∈ f.deniedWindows, ∀ day, ¬ w.Covers day localSec := by
      intro w hw day hday
      exact hdeny (List.any_eq_true.mpr ⟨w, hw, (hcovers w (hdenied w hw)).mp ⟨day, hday⟩⟩)
    simp only [Bool.not_eq_true] at hdeny
    by_cases hempty : f.allowedWindows = []
    · have hpermits := @permits_iff f (weekdayOfDay (civilDay localSec))
      cases hday : f.permits (weekdayOfDay (civilDay localSec)) with
      | false =>
          rw [hday] at hpermits
          simp [hdeny, hempty, ← hpermits, PolicyDecision.isAllowed, PolicyDecision.reject]
      | true =>
          rw [hday] at hpermits
          simp [hdeny, hempty, ← hpermits, PolicyDecision.isAllowed, PolicyDecision.allow]
          exact hclear
    · have hscan := scanAllowed_isAllowed (f := f) (civilSecond localSec).toNat (weekdayOfDay (civilDay localSec))
        false f.allowedWindows
      simp only [windowWeekday_eq, permits_iff] at hscan
      simp only [Bool.not_true, Bool.false_eq_true, if_false, hdeny, List.isEmpty_iff, hempty, hscan, false_and,
        false_or]
      constructor
      · rintro ⟨w, hw, hcontains, hday⟩
        exact ⟨hclear, w, hw, w.startDay localSec,
          (TradingTimeWindow.covers_iff (hallowed w hw)).mpr ⟨hcontains, rfl⟩, hday⟩
      · rintro ⟨-, w, hw, day, hday, hpermits⟩
        obtain ⟨hcontains, rfl⟩ := (TradingTimeWindow.covers_iff (hallowed w hw)).mp hday
        exact ⟨w, hw, hcontains, hpermits⟩

/-- An overnight window from Sunday: its tail is allowed early on Monday. -/
def sundayNight : TradingWindowFilter := { allowedWindows := [⟨79200, 7200⟩], allowedWeekdays := [0] }

/-- A time library of a world in UTC. -/
def utcShield : Records.TimeShield Unit where
  msToMin ms := ms / 60000
  msToSec ms := ms / 1000
  toDateTime _ := ⟨0, 0, 0, 0, 0⟩
  weekdayOfTs localSec := weekdayOfDay (civilDay localSec)
  minTimestampMs := 0
  maxTimestampMs := 0
  zoneOffsetAtUtcMs _ _ := some 0
  zoneToGmtMs _ ms := some ms

theorem TradingWindowFilter.allows_iff_mondayMorning :
    (sundayNight.evaluate utcShield civilSecond { evaluationTimeMs := some 349200000 }).isAllowed = true :=
  (TradingWindowFilter.allows_iff utcShield civilSecond (fun _ => rfl) (fun _ => rfl) sundayNight (by decide)
    { evaluationTimeMs := some 349200000 } 349200000 349200000 rfl (by decide)).mpr
    ⟨by simp [sundayNight], .inr ⟨⟨79200, 7200⟩, by decide, 3, by
      simp [TradingTimeWindow.Covers, TradingTimeWindow.span, utcShield], .inr (by decide)⟩⟩

end OptionX.TradingSystem
