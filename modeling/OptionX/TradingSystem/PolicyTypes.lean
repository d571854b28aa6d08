import OptionX.Lib.Decimal
import OptionX.Lib.Machine
import OptionX.Records.TradeTimeZone
import OptionX.TradingSystem.Types

/-!
# Decisions of the policies and decimal money

`PolicyTypes.hpp` and the parts of `DecisionContext.hpp` that the policies read. Texts are lists of characters, one for
each byte.
-/

namespace OptionX.TradingSystem

open Lib.Decimal (digitValue)
open Lib.Machine

inductive DataAvailability where
  | supported | unavailable | stale | unknown
  deriving DecidableEq, Repr

inductive PolicyDecisionKind where
  | allow | reject | unavailable
  deriving DecidableEq, Repr

inductive PolicyReason where
  | none | matched | invalidContext | invalidConfiguration | missingSymbol | unknownSymbol | symbolNotAllowed
  | symbolDenied | missingSourceId | sourceNotAllowed | sourceDenied | missingSignalName | signalNameNotAllowed
  | signalNameDenied | missingEvaluationTime | weekdayNotAllowed | timeNotAllowed | timeDenied
  deriving DecidableEq, Repr

structure PolicyDecision where
  kind : PolicyDecisionKind := .unavailable
  reason : PolicyReason := .invalidContext
  deriving DecidableEq, Repr

namespace PolicyDecision

def allow (reason : PolicyReason := .matched) : PolicyDecision := ⟨.allow, reason⟩

def reject (reason : PolicyReason) : PolicyDecision := ⟨.reject, reason⟩

def unavailable (reason : PolicyReason) : PolicyDecision := ⟨.unavailable, reason⟩

def isAllowed (d : PolicyDecision) : Bool := d.kind == .allow

end PolicyDecision

inductive SizingDecisionKind where
  | sized | rejected | unavailable
  deriving DecidableEq, Repr

inductive SizingReason where
  | none | sized | invalidConfiguration | invalidAmount | invalidPercent | unknownCurrency | currencyMismatch
  | balanceUnavailable | balanceStale | balanceUnknown | missingBalance | zeroBalance | negativeBalance | zeroResult
  | precisionMismatch | numericOverflow
  deriving DecidableEq, Repr

structure SizingDecision where
  kind : SizingDecisionKind := .unavailable
  reason : SizingReason := .invalidConfiguration
  amount : Option MoneyAmount := Option.none
  deriving DecidableEq, Repr

namespace SizingDecision

def sized (amount : MoneyAmount) : SizingDecision := ⟨.sized, .sized, some amount⟩

def rejected (reason : SizingReason) : SizingDecision := ⟨.rejected, reason, none⟩

def unavailable (reason : SizingReason) : SizingDecision := ⟨.unavailable, reason, none⟩

def isSized (d : SizingDecision) : Bool := d.kind == .sized && d.amount.isSome

end SizingDecision

/-! ## The snapshot that the policies read -/

structure BalanceSnapshot where
  availability : DataAvailability := .unknown
  currency : CurrencyType := .unknown
  balance : Option MoneyAmount := none
  deriving DecidableEq, Repr

structure TradingDecisionContext (Zone : Type) where
  evaluationTimeMs : Option Int := none
  timeZone : Records.TradeTimeZone Zone := .utc
  account : BalanceSnapshot := {}

/-! ## Decimal money -/

def powerOfTen : Nat → Exact Nat
  | 0 => .ok 1
  | precision + 1 => do u64 ((← powerOfTen precision) * 10)

namespace MoneyAmount

/-- The sign, the digits before the point and those after it; nothing where there are two points or nothing but a
sign. -/
def decimalParts (text : List Char) : Option (Bool × List Char × List Char) :=
  let negative := text.head? == some '-'
  let body := if negative || text.head? == some '+' then text.tail else text
  let whole := body.takeWhile (· != '.')
  let rest := body.dropWhile (· != '.')
  let fraction := rest.tail
  if body.isEmpty || fraction.contains '.' || (whole.isEmpty && fraction.isEmpty) then none
  else some (negative, whole, fraction)

def readWhole : Nat → List Char → Exact (Option Nat)
  | whole, [] => .ok (some whole)
  | whole, ch :: rest =>
      if !ch.isDigit then .ok none
      else if (uint64Max - digitValue ch) / 10 < whole then .ok none
      else do
        let tens ← u64 (whole * 10)
        readWhole (← u64 (tens + digitValue ch)) rest

/-- The digits that are stored; those after them have to be zeros. -/
def readFraction : Nat → Nat → List Char → Exact (Option Nat)
  | _, fraction, [] => .ok (some fraction)
  | stored, fraction, ch :: rest =>
      if !ch.isDigit then .ok none
      else if 0 < stored then do
        let tens ← u64 (fraction * 10)
        readFraction (stored - 1) (← u64 (tens + digitValue ch)) rest
      else if ch != '0' then .ok none
      else readFraction stored fraction rest

def padFraction : Nat → Nat → Exact Nat
  | 0, fraction => .ok fraction
  | missing + 1, fraction => do padFraction missing (← u64 (fraction * 10))

def signedUnits (negative : Bool) (magnitude : Nat) : Exact Int64 :=
  if !negative then do return Int64.ofInt (← i64 magnitude)
  else if magnitude = 2 ^ 63 then .ok Int64.minValue
  else do
    let units ← i64 magnitude
    return Int64.ofInt (← i64 (-units))

def fromDecimal (text : List Char) (currency : CurrencyType) (precision : UInt8) : Exact (Option MoneyAmount) :=
  if text.isEmpty || maxMoneyPrecision < precision || currency == .unknown then .ok none
  else
    match decimalParts text with
    | none => .ok none
    | some (negative, wholeText, fractionText) => do
        let some whole ← readWhole 0 wholeText | return none
        let stored := min fractionText.length precision.toNat
        let some fraction ← readFraction stored 0 fractionText | return none
        let fraction ← padFraction (precision.toNat - stored) fraction
        let factor ← powerOfTen precision.toNat
        let maxMagnitude := if negative then 2 ^ 63 else 2 ^ 63 - 1
        if (← u64Sub maxMagnitude fraction) / factor < whole then return none
        let scaled ← u64 (whole * factor)
        let magnitude ← u64 (scaled + fraction)
        return some { units := ← signedUnits negative magnitude, precision, currency }

/-- The magnitude of a word, computed without leaving its range. -/
def unitsMagnitude (units : Int64) : Exact Nat :=
  if units < 0 then do
    let next ← i64 (units.toInt + 1)
    u64 ((← i64 (-next)).toNat + 1)
  else .ok units.toInt.toNat

def toDecimal (m : MoneyAmount) : Exact (List Char) :=
  if !m.validMetadata then .ok []
  else do
    let magnitude ← unitsMagnitude m.units
    let factor ← powerOfTen m.precision.toNat
    let whole := magnitude / factor
    let fraction := magnitude % factor
    let result := (if m.units < 0 then ['-'] else []) ++ Nat.toDigits 10 whole
    if m.precision = 0 then return result
    let fractionText := Nat.toDigits 10 fraction
    let zeros ← u64Sub m.precision.toNat fractionText.length
    return result ++ ['.'] ++ List.replicate zeros '0' ++ fractionText

end MoneyAmount

end OptionX.TradingSystem
