import OptionX.TradingSystem.PolicyTypes

/-!
# The trading-window filter

`TradingTimeWindow` and `TradingWindowFilter` of `Filters.hpp`. Weekdays are numbered from Sunday, as the time library's
are.
-/

namespace OptionX.TradingSystem

/-- A half-open daily interval in local seconds; it crosses midnight where the start is the greater endpoint. -/
structure TradingTimeWindow where
  startSecond : Nat := 0
  endSecond : Nat := 0
  deriving DecidableEq, Repr

namespace TradingTimeWindow

def valid (w : TradingTimeWindow) : Bool :=
  w.startSecond < 86400 && w.endSecond ≤ 86400 && w.startSecond != w.endSecond

def contains (w : TradingTimeWindow) (secondOfDay : Nat) : Bool :=
  if !w.valid || 86400 ≤ secondOfDay then false
  else if w.startSecond < w.endSecond then w.startSecond ≤ secondOfDay && secondOfDay < w.endSecond
  else w.startSecond ≤ secondOfDay || secondOfDay < w.endSecond

end TradingTimeWindow

def sunday : Int := 0

def saturday : Int := 6

def previousWeekday (weekday : Int) : Int := if weekday = sunday then saturday else weekday - 1

structure TradingWindowFilter where
  allowedWindows : List TradingTimeWindow := []
  deniedWindows : List TradingTimeWindow := []
  allowedWeekdays : List Int := []
  deriving DecidableEq, Repr

namespace TradingWindowFilter

/-- The check that the constructor makes. -/
def valid (f : TradingWindowFilter) : Bool :=
  f.allowedWindows.all (·.valid) && f.deniedWindows.all (·.valid) &&
    f.allowedWeekdays.all (fun weekday => sunday ≤ weekday && weekday ≤ saturday)

def permits (f : TradingWindowFilter) (weekday : Int) : Bool :=
  f.allowedWeekdays.isEmpty || f.allowedWeekdays.contains weekday

/-- The weekday that an allowed window belongs to. -/
def windowWeekday (w : TradingTimeWindow) (secondOfDay : Nat) (weekday : Int) : Int :=
  if w.endSecond < w.startSecond ∧ secondOfDay < w.endSecond then previousWeekday weekday else weekday

/-- The scan of the allowed windows. -/
def scanAllowed (f : TradingWindowFilter) (secondOfDay : Nat) (weekday : Int) :
    Bool → List TradingTimeWindow → PolicyDecision
  | matchesTime, [] => .reject (if matchesTime then .weekdayNotAllowed else .timeNotAllowed)
  | matchesTime, w :: windows =>
      if !w.contains secondOfDay then f.scanAllowed secondOfDay weekday matchesTime windows
      else if f.permits (windowWeekday w secondOfDay weekday) then .allow
      else f.scanAllowed secondOfDay weekday true windows

def evaluate {Zone : Type} (shield : Records.TimeShield Zone) (secOfDay : Int → Int) (f : TradingWindowFilter)
    (context : TradingDecisionContext Zone) : PolicyDecision :=
  if !f.valid then .unavailable .invalidConfiguration
  else
    match context.evaluationTimeMs with
    | none => .unavailable .missingEvaluationTime
    | some evaluationTimeMs =>
        match context.timeZone.tryToLocalMs shield evaluationTimeMs with
        | none => .unavailable .invalidConfiguration
        | some localMs =>
            let localSec := shield.msToSec localMs
            let secondOfDay := (secOfDay localSec).toNat
            let weekday := shield.weekdayOfTs localSec
            if f.deniedWindows.any (·.contains secondOfDay) then .reject .timeDenied
            else if f.allowedWindows.isEmpty then
              if f.permits weekday then .allow else .reject .weekdayNotAllowed
            else f.scanAllowed secondOfDay weekday false f.allowedWindows

end TradingWindowFilter

end OptionX.TradingSystem
