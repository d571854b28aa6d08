import OptionX.Lib.Machine
import OptionX.MarketData.TickRoute

/-!
# The chunks of a tick range

The range computations of a tick route once more, each 64-bit operation checked, and the ranges that a recovery asks
for one after the other.
-/

namespace OptionX.MarketData

open Lib.Machine

namespace Checked

def alignTickHistoryTimeMs (timeMs intervalMs : Nat) : Exact Nat :=
  if timeMs = 0 ∨ intervalMs = 0 then .ok timeMs else u64Sub timeMs (timeMs % intervalMs)

def saturatingAdd (left right : Nat) : Exact Nat := do
  if (← u64Sub u64Max right) < left then return u64Max
  u64 (left + right)

def boundedTickHistoryToTimeMs (fromTimeMs targetTimeMs maxBackfillMs intervalMs : Nat) : Exact Nat :=
  if maxBackfillMs = 0 then alignTickHistoryTimeMs targetTimeMs intervalMs
  else do
    let bounded ← saturatingAdd fromTimeMs (← u64Sub maxBackfillMs 1)
    let targetEnd ← alignTickHistoryTimeMs targetTimeMs intervalMs
    if targetEnd ≤ bounded then return targetEnd
    if intervalMs = 0 then return bounded
    let alignedBound ← alignTickHistoryTimeMs bounded intervalMs
    return if fromTimeMs ≤ alignedBound then alignedBound else fromTimeMs

/-- The start of a range that may not overlap the one before. -/
def startAfter (previousToTimeMs step : Nat) : Exact (Option Nat) := do
  if (← u64Sub u64Max step) < previousToTimeMs then return none
  return some (← u64 (previousToTimeMs + step))

def nextTickHistoryRange (previousToTimeMs targetTimeMs maxBackfillMs intervalMs : Nat) :
    Exact (Option (Nat × Nat)) :=
  if targetTimeMs ≤ previousToTimeMs then .ok none
  else do
    let canOverlap := maxBackfillMs = 0 ∨
      (if intervalMs = 0 then 1 < maxBackfillMs else intervalMs < maxBackfillMs)
    let some nextFrom ←
        if canOverlap then .ok (some previousToTimeMs)
        else startAfter previousToTimeMs (if 0 < intervalMs then intervalMs else 1)
      | return none
    if targetTimeMs < nextFrom then return none
    let nextTo ← boundedTickHistoryToTimeMs nextFrom targetTimeMs maxBackfillMs intervalMs
    let nextTo := if nextTo < nextFrom ∧ 0 < intervalMs then nextFrom else nextTo
    return if nextFrom ≤ nextTo then some (nextFrom, nextTo) else none

/-- The ranges that follow one that ends at `previousToTimeMs`, until there is no next one; nothing where the fuel runs
out before. -/
def followingRanges (targetTimeMs maxBackfillMs intervalMs : Nat) : Nat → Nat → Exact (Option (List (Nat × Nat)))
  | 0, _ => .ok none
  | fuel + 1, previousToTimeMs => do
      match ← nextTickHistoryRange previousToTimeMs targetTimeMs maxBackfillMs intervalMs with
      | none => return some []
      | some range =>
          let rest ← followingRanges targetTimeMs maxBackfillMs intervalMs fuel range.2
          return rest.map (range :: ·)

/-- All ranges from a start on. -/
def tickHistoryRanges (fuel fromTimeMs targetTimeMs maxBackfillMs intervalMs : Nat) :
    Exact (Option (List (Nat × Nat))) := do
  let toTimeMs ← boundedTickHistoryToTimeMs fromTimeMs targetTimeMs maxBackfillMs intervalMs
  let rest ← followingRanges targetTimeMs maxBackfillMs intervalMs fuel toTimeMs
  return rest.map ((fromTimeMs, toTimeMs) :: ·)

end Checked

end OptionX.MarketData
