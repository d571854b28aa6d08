import OptionX.Lib.Machine
import OptionX.Records.TradeTimeZone

/-!
# Local days

The day and hour queries of `TradeTimeZone.hpp`. The first part has every signed 64-bit operation of the source with its
range checked; the second part is the day query that the plain model of the class leaves out.
-/

namespace OptionX.Records.TradeTimeZone

open Lib.Machine (Exact i64 int64Max int64Min)

variable {Zone : Type}

/-! ## With the ranges of the operations -/

namespace Checked

/-- The tests of `checked_add_int64`. -/
def addRefused (lhs rhs : Int) : Exact Bool :=
  if 0 < rhs then do
    return lhs > (← i64 (int64Max - rhs))
  else if rhs < 0 then
    if rhs = int64Min then return lhs < 0
    else do
      return lhs < (← i64 (int64Min - rhs))
  else return false

def checkedAddInt64 (lhs rhs : Int) : Exact (Option Int) := do
  if ← addRefused lhs rhs then return none
  return some (← i64 (lhs + rhs))

/-- The tests of `checked_subtract_int64`. -/
def subtractRefused (lhs rhs : Int) : Exact Bool :=
  if 0 < rhs then do
    return lhs < (← i64 (int64Min + rhs))
  else if rhs < 0 then
    if rhs = int64Min then return 0 ≤ lhs
    else do
      return lhs > (← i64 (int64Max + rhs))
  else return false

def checkedSubtractInt64 (lhs rhs : Int) : Exact (Option Int) := do
  if ← subtractRefused lhs rhs then return none
  return some (← i64 (lhs - rhs))

/-- The bounds are quotients rounded toward zero. -/
def checkedSecondsToMs (seconds : Int) : Exact (Option Int) :=
  if seconds > int64Max.tdiv 1000 ∨ seconds < int64Min.tdiv 1000 then return none
  else do
    return some (← i64 (seconds * 1000))

def checkedStartOfPeriodMs (timestampMs periodMs : Int) : Exact (Option Int) := do
  let remainderMs := timestampMs.tmod periodMs
  let remainderMs ← if remainderMs < 0 then i64 (remainderMs + periodMs) else pure remainderMs
  checkedSubtractInt64 timestampMs remainderMs

variable (shield : TimeShield Zone)

def tryToLocalMs (utcMs : Int) (timeZone : TradeTimeZone Zone) : Exact (Option Int) :=
  match timeZone with
  | .unsupported => return none
  | _ =>
    match timeZone.tryOffsetAtUtcMs shield utcMs with
    | none => return none
    | some offsetSec => do
      match ← checkedSecondsToMs offsetSec with
      | none => return none
      | some offsetMs => checkedAddInt64 utcMs offsetMs

def toLocalMs (utcMs : Int) (timeZone : TradeTimeZone Zone) : Exact Int := do
  return (← tryToLocalMs shield utcMs timeZone).getD utcMs

/-- The conversion back by a fixed offset. -/
def subtractOffset (localMs offsetSec : Int) : Exact Int := do
  match ← checkedSecondsToMs offsetSec with
  | none => return localMs
  | some offsetMs => return (← checkedSubtractInt64 localMs offsetMs).getD localMs

def toUtcMs (localMs : Int) : TradeTimeZone Zone → Exact Int
  | .fixedOffset offsetSec => subtractOffset localMs offsetSec
  | .unsupported => subtractOffset localMs 0
  | .named zone =>
      return if isTimeShieldTimestamp shield localMs then (shield.zoneToGmtMs zone localMs).getD localMs else localMs

def startOfLocalDayUtcMs (utcMs : Int) (timeZone : TradeTimeZone Zone) : Exact Int := do
  match ← checkedStartOfPeriodMs (← toLocalMs shield utcMs timeZone) 86400000 with
  | none => return utcMs
  | some dayStartLocalMs => toUtcMs shield dayStartLocalMs timeZone

def nextLocalDayStartUtcMs (utcMs : Int) (timeZone : TradeTimeZone Zone) : Exact Int := do
  match ← checkedStartOfPeriodMs (← toLocalMs shield utcMs timeZone) 86400000 with
  | none => return utcMs
  | some dayStartLocalMs =>
    match ← checkedAddInt64 dayStartLocalMs 86400000 with
    | none => return utcMs
    | some nextDayStartLocalMs => toUtcMs shield nextDayStartLocalMs timeZone

def startOfLocalHourUtcMs (utcMs : Int) (timeZone : TradeTimeZone Zone) : Exact Int :=
  match timeZone.tryOffsetAtUtcMs shield utcMs with
  | none => return utcMs
  | some offsetSec => do
    match ← checkedSecondsToMs offsetSec with
    | none => return utcMs
    | some offsetMs =>
      match ← checkedAddInt64 utcMs offsetMs with
      | none => return utcMs
      | some localMs =>
        match ← checkedStartOfPeriodMs localMs 3600000 with
        | none => return utcMs
        | some localHourStartMs => return (← checkedSubtractInt64 localHourStartMs offsetMs).getD utcMs

end Checked

/-! ## The next day -/

def nextLocalDayStartUtcMs (shield : TimeShield Zone) (utcMs : Int) (timeZone : TradeTimeZone Zone) : Int :=
  match checkedStartOfPeriodMs (timeZone.toLocalMs shield utcMs) 86400000 with
  | none => utcMs
  | some dayStartLocalMs =>
    match checkedAddInt64 dayStartLocalMs 86400000 with
    | none => utcMs
    | some nextDayStartLocalMs => timeZone.toUtcMs shield nextDayStartLocalMs

end OptionX.Records.TradeTimeZone
