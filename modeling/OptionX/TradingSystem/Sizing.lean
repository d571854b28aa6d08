import OptionX.TradingSystem.PolicyTypes

/-!
# Sizing policies

`Sizing.hpp`: a fixed stake, and a percentage of the balance in basis points.
-/

namespace OptionX.TradingSystem

open Lib.Machine

inductive MoneyRounding where
  | down | halfUp | up
  deriving DecidableEq, Repr

/-- Whether a quotient with this remainder is raised by one. -/
def MoneyRounding.increments (rounding : MoneyRounding) (denominator fractional : Nat) : Bool :=
  match rounding with
  | .down => false
  | .halfUp => denominator / 2 ≤ fractional
  | .up => fractional ≠ 0

/-- A word that is not negative, as an unsigned one. -/
def unsignedUnits (units : Int64) : Nat := units.toUInt64.toNat

def maxUnits : Nat := 2 ^ 63 - 1

/-- `percentage_units` where the power of ten of the precision outweighs that of the basis points: the denominator is
cancelled first. -/
def scaledUnits (value basisPoints delta : Nat) : Exact (Option Nat) := do
  let factor ← powerOfTen (delta - 4)
  let multiplier ← u64 (basisPoints * factor)
  if maxUnits / multiplier < value then return none
  return some (← u64 (value * multiplier))

/-- `percentage_units` with a denominator left: whole and remainder apart, then the rounding. -/
def dividedUnits (value basisPoints delta : Nat) (rounding : MoneyRounding) : Exact (Option Nat) := do
  let denominator ← powerOfTen (4 - delta)
  let whole := value / denominator
  let remainder := value % denominator
  if maxUnits / basisPoints < whole then return none
  let result ← u64 (whole * basisPoints)
  let remainderProduct ← u64 (remainder * basisPoints)
  let integralRemainder := remainderProduct / denominator
  if (← u64Sub maxUnits integralRemainder) < result then return none
  let result ← u64 (result + integralRemainder)
  let fractional := remainderProduct % denominator
  if rounding.increments denominator fractional then
    if result = maxUnits then return none
    return some (← u64 (result + 1))
  return some result

def percentageUnits (balanceUnits : Int64) (balancePrecision outputPrecision : UInt8) (basisPoints : Int64)
    (rounding : MoneyRounding) : Exact (Option Int64) :=
  if balanceUnits < 0 ∨ maxMoneyPrecision < balancePrecision ∨ outputPrecision < balancePrecision ∨
      maxMoneyPrecision < outputPrecision ∨ basisPoints ≤ 0 ∨ 10000 < basisPoints then .ok none
  else do
    let delta := (outputPrecision - balancePrecision).toNat
    let value := unsignedUnits balanceUnits
    let points := unsignedUnits basisPoints
    let units ← if 4 ≤ delta then scaledUnits value points delta else dividedUnits value points delta rounding
    return units.map Int64.ofNat

structure FixedStake where
  amount : MoneyAmount
  deriving DecidableEq, Repr

def FixedStake.evaluate (s : FixedStake) : SizingDecision :=
  if !s.amount.validMetadata || s.amount.units ≤ 0 then .rejected .invalidAmount else .sized s.amount

/-- A percentage whose basis points are in range where it is valid. -/
structure PercentOfBalance where
  basisPoints : Int64 := 0
  outputPrecision : UInt8 := 2
  rounding : MoneyRounding := .down
  configured : Bool := false
  inRange : configured = true → 0 < basisPoints ∧ basisPoints ≤ 10000 := by decide

namespace PercentOfBalance

def fromBasisPoints (basisPoints : Int64) (outputPrecision : UInt8 := 2) (rounding : MoneyRounding := .down) :
    PercentOfBalance where
  basisPoints := basisPoints
  outputPrecision := outputPrecision
  rounding := rounding
  configured := 0 < basisPoints && basisPoints ≤ 10000
  inRange h := by simpa using h

def valid (p : PercentOfBalance) : Bool := p.configured && p.outputPrecision ≤ maxMoneyPrecision

/-- The decision on a balance that is there. -/
def evaluateBalance (p : PercentOfBalance) (accountCurrency : CurrencyType) (balance : MoneyAmount) :
    Exact SizingDecision :=
  if maxMoneyPrecision < balance.precision then .ok (.rejected .invalidAmount)
  else if balance.currency = .unknown then .ok (.rejected .unknownCurrency)
  else if !balance.validMetadata then .ok (.rejected .invalidAmount)
  else if accountCurrency = .unknown then .ok (.unavailable .unknownCurrency)
  else if accountCurrency ≠ balance.currency then .ok (.rejected .currencyMismatch)
  else if balance.units < 0 then .ok (.rejected .negativeBalance)
  else if balance.units = 0 then .ok (.rejected .zeroBalance)
  else if p.outputPrecision < balance.precision then .ok (.rejected .precisionMismatch)
  else do
    let some calculated ←
        percentageUnits balance.units balance.precision p.outputPrecision p.basisPoints p.rounding
      | return .rejected .numericOverflow
    if calculated ≤ 0 then return .rejected .zeroResult
    return .sized { units := calculated, precision := p.outputPrecision, currency := balance.currency }

def evaluate {Zone : Type} (p : PercentOfBalance) (context : TradingDecisionContext Zone) : Exact SizingDecision :=
  if !p.valid then .ok (.rejected .invalidPercent)
  else
    match context.account.availability, context.account.balance with
    | .unavailable, _ => .ok (.unavailable .balanceUnavailable)
    | .stale, _ => .ok (.unavailable .balanceStale)
    | .unknown, _ => .ok (.unavailable .balanceUnknown)
    | .supported, none => .ok (.unavailable .missingBalance)
    | .supported, some balance => p.evaluateBalance context.account.currency balance

end PercentOfBalance

end OptionX.TradingSystem
