import Mathlib

/-!
# Local time

`TradeTimeZone.hpp`. Calendar and zone rules belong to another library and are parameters; the checks against the bounds
of 64 bits are the source's own.
-/

namespace OptionX.Records

/-- The civil time of a second. -/
structure DateTime where
  day : Int
  mon : Int
  hour : Int
  min : Int
  sec : Int

/-- What the time library answers. -/
structure TimeShield (Zone : Type) where
  msToMin : Int → Int
  msToSec : Int → Int
  toDateTime : Int → DateTime
  weekdayOfTs : Int → Int
  minTimestampMs : Int
  maxTimestampMs : Int
  zoneOffsetAtUtcMs : Zone → Int → Option Int
  zoneToGmtMs : Zone → Int → Option Int

/-- A fixed offset in seconds, a named zone, or a zone that is not known and counts as UTC. -/
inductive TradeTimeZone (Zone : Type) where
  | fixedOffset (offsetSec : Int)
  | named (zone : Zone)
  | unsupported

namespace TradeTimeZone

variable {Zone : Type}

def utc : TradeTimeZone Zone := .fixedOffset 0

instance : Inhabited (TradeTimeZone Zone) := ⟨utc⟩

def minInt64 : Int := -2 ^ 63

def maxInt64 : Int := 2 ^ 63 - 1

def checkedInt64 (value : Int) : Option Int := if minInt64 ≤ value ∧ value ≤ maxInt64 then some value else none

def checkedAddInt64 (lhs rhs : Int) : Option Int := checkedInt64 (lhs + rhs)

def checkedSubtractInt64 (lhs rhs : Int) : Option Int := checkedInt64 (lhs - rhs)

def checkedSecondsToMs (seconds : Int) : Option Int := checkedInt64 (seconds * 1000)

def checkedStartOfPeriodMs (timestampMs periodMs : Int) : Option Int :=
  checkedSubtractInt64 timestampMs (timestampMs % periodMs)

variable (shield : TimeShield Zone)

def isTimeShieldTimestamp (timestampMs : Int) : Bool :=
  shield.minTimestampMs ≤ timestampMs && timestampMs ≤ shield.maxTimestampMs

def tryOffsetAtUtcMs (utcMs : Int) : TradeTimeZone Zone → Option Int
  | .fixedOffset offsetSec => some offsetSec
  | .unsupported => some 0
  | .named zone => if isTimeShieldTimestamp shield utcMs then shield.zoneOffsetAtUtcMs zone utcMs else none

def tryToLocalMs (utcMs : Int) (timeZone : TradeTimeZone Zone) : Option Int :=
  match timeZone with
  | .unsupported => none
  | _ => do
      let offsetSec ← timeZone.tryOffsetAtUtcMs shield utcMs
      let offsetMs ← checkedSecondsToMs offsetSec
      checkedAddInt64 utcMs offsetMs

def toLocalMs (utcMs : Int) (timeZone : TradeTimeZone Zone) : Int := (timeZone.tryToLocalMs shield utcMs).getD utcMs

def toUtcMs (localMs : Int) : TradeTimeZone Zone → Int
  | .fixedOffset offsetSec => ((checkedSecondsToMs offsetSec).bind (checkedSubtractInt64 localMs)).getD localMs
  | .unsupported => ((checkedSecondsToMs 0).bind (checkedSubtractInt64 localMs)).getD localMs
  | .named zone =>
      if isTimeShieldTimestamp shield localMs then (shield.zoneToGmtMs zone localMs).getD localMs else localMs

def startOfLocalDayUtcMs (utcMs : Int) (timeZone : TradeTimeZone Zone) : Int :=
  match checkedStartOfPeriodMs (timeZone.toLocalMs shield utcMs) 86400000 with
  | none => utcMs
  | some dayStartLocalMs => timeZone.toUtcMs shield dayStartLocalMs

def startOfLocalHourUtcMs (utcMs : Int) (timeZone : TradeTimeZone Zone) : Int :=
  ((do
    let offsetSec ← timeZone.tryOffsetAtUtcMs shield utcMs
    let offsetMs ← checkedSecondsToMs offsetSec
    let localMs ← checkedAddInt64 utcMs offsetMs
    let localHourStartMs ← checkedStartOfPeriodMs localMs 3600000
    checkedSubtractInt64 localHourStartMs offsetMs).getD utcMs)

/-- The civil time of a timestamp in the zone. -/
def localDateTime (utcMs : Int) (timeZone : TradeTimeZone Zone) : DateTime :=
  shield.toDateTime (shield.msToSec (timeZone.toLocalMs shield utcMs))

def localWeekday (utcMs : Int) (timeZone : TradeTimeZone Zone) : Int :=
  shield.weekdayOfTs (shield.msToSec (timeZone.toLocalMs shield utcMs))

end TradeTimeZone

end OptionX.Records
