import OptionX.TradingView.Config
import OptionX.TradingView.Event

/-!
# The timing of study alerts

The times of `TradingViewExtensionProtocol.hpp`, with the range of each 64-bit operation checked. What the code reads of
the wall clock are arguments, one for each reading.
-/

namespace OptionX.TradingView

open Lib.Machine

def normalizeEpochMs (value : Int) : Exact Int :=
  if value ≤ 0 then .ok 0
  else if value < 100000000000 then i64 (value * 1000)
  else .ok value

/-- The factors of a suffix, in the order of the multiplications. -/
def timeframeFactors (suffix : UInt8) : Option (List Int) :=
  if suffix = 0 then some [60]
  else if suffix = 83 ∨ suffix = 115 then some []
  else if suffix = 72 ∨ suffix = 104 then some [60, 60]
  else if suffix = 68 ∨ suffix = 100 then some [24, 60, 60]
  else if suffix = 87 ∨ suffix = 119 then some [7, 24, 60, 60]
  else if suffix = 77 then some [30, 24, 60, 60]
  else none

/-- The amount and the factors of a timeframe text; nothing where the fallback is taken. -/
def timeframeParts (value : Text) : Option (Int × List Int) :=
  let text := trimCopy value
  match text.getLast? with
  | none => none
  | some last =>
      let (suffix, text) := if isDigit last then (0, text) else (last, text.dropLast)
      let text := if text = [] then [49] else text
      match strictIntegerStringToI64 text with
      | none => none
      | some amount => if amount ≤ 0 then none else (timeframeFactors suffix).map fun factors => (amount, factors)

def parseTimeframeSeconds (value : Text) (fallback : Int) : Exact Int :=
  match timeframeParts value with
  | none => .ok fallback
  | some (amount, factors) => factors.foldlM (fun product factor => i64 (product * factor)) amount

variable {F : Type}

def effectiveTimeframeSeconds (config : TradingViewExtensionBridgeConfig F) (event : NormalizedEvent F) : Exact Int :=
  if 0 < event.timeframeSeconds then .ok event.timeframeSeconds
  else parseTimeframeSeconds event.timeframe config.studyAlertDefaultTimeframeSeconds

def eventReferenceTimeMs (event : NormalizedEvent F) (now : Int) : Exact Int := do
  let update ← normalizeEpochMs event.updateTime
  if 0 < update then return update
  let eventTime ← normalizeEpochMs event.time
  if 0 < eventTime then return eventTime
  return now

def isStaleStudyAlert (config : TradingViewExtensionBridgeConfig F) (event : NormalizedEvent F)
    (referenceNow now : Int) : Exact Bool := do
  if !config.studyAlertRejectHistorical ∨ config.studyAlertMaxSignalAgeSeconds ≤ 0 then return false
  let referenceTime ← eventReferenceTimeMs event referenceNow
  if referenceTime ≤ 0 then return false
  let ageMs ← i64 (now - referenceTime)
  if ageMs ≤ 0 then return false
  return (← i64 (config.studyAlertMaxSignalAgeSeconds * 1000)) < ageMs

def isWithinCloseWindow (config : TradingViewExtensionBridgeConfig F) (event : NormalizedEvent F) (now : Int) :
    Exact Bool := do
  let barTime ← normalizeEpochMs (if 0 < event.barTime then event.barTime else event.time)
  let timeframeSeconds ← effectiveTimeframeSeconds config event
  if barTime ≤ 0 ∨ timeframeSeconds ≤ 0 then return false
  let referenceTime ← eventReferenceTimeMs event now
  let closeTime ← i64 (barTime + (← i64 (timeframeSeconds * 1000)))
  let windowStart ← i64 (closeTime - (← i64 (config.studyAlertCloseWindowSeconds * 1000)))
  return windowStart ≤ referenceTime

end OptionX.TradingView
