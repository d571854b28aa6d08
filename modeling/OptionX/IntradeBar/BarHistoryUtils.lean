import OptionX.IntradeBar.BarAggregation
import OptionX.IntradeBar.TradingConditionManager
import OptionX.Lib.Machine

/-!
# Slices of a bar history and its dense check

`BarHistoryUtils.hpp`, with the range of each 64-bit operation checked. Times of requests count in seconds, times of
bars in milliseconds.
-/

namespace OptionX.IntradeBar

open Lib.Machine

structure BarHistoryChunk where
  fromTs : Int
  toTs : Int
  deriving DecidableEq, Repr

/-- The loop of `build_bar_history_chunks`; nothing where the fuel runs out. -/
def chunksFrom (toTs timeframeSec chunkSpan : Int) : Nat → Int → Lib.Machine.Exact (Option (List BarHistoryChunk))
  | 0, _ => .ok none
  | fuel + 1, current =>
      if toTs < current then .ok (some [])
      else do
        let remaining ← i64 (toTs - current)
        let currentTo ← i64 (current + min remaining chunkSpan)
        if (← i64 (int64Max - timeframeSec)) < currentTo then return some [⟨current, currentTo⟩]
        let rest ← chunksFrom toTs timeframeSec chunkSpan fuel (← i64 (currentTo + timeframeSec))
        return rest.map (⟨current, currentTo⟩ :: ·)

def buildBarHistoryChunks (fuel : Nat) (fromTs toTs timeframeSec maxBarsPerRequest : Int) :
    Lib.Machine.Exact (Option (List BarHistoryChunk)) :=
  if fromTs ≤ 0 ∨ toTs < fromTs ∨ timeframeSec ≤ 0 ∨ maxBarsPerRequest ≤ 0 then .ok (some [])
  else do
    let more ← i64 (maxBarsPerRequest - 1)
    let chunkSpan ← i64 (timeframeSec * max 0 more)
    chunksFrom toTs timeframeSec chunkSpan fuel fromTs

/-! ## The dense check -/

structure BarSequence (P V : Type) where
  bars : List (Bar P V)
  symbol : String
  timeframe : Int

/-- What the caller asks for; the timeframe is a 32-bit number. -/
structure BarHistoryRequest where
  symbol : String
  timeframe : Int
  fromTs : Int
  toTs : Int
  deriving DecidableEq, Repr

variable {P V : Type}

/-- The loop of `bar_sequence_covers_dense_range`. -/
def coversFrom (stepMs : Nat) : Nat → List (Bar P V) → Lib.Machine.Exact Bool
  | _, [] => .ok true
  | expectedTimeMs, bar :: bars =>
      if bar.timeMs ≠ expectedTimeMs then .ok false
      else if bars.isEmpty then .ok true
      else do
        if (← u64Sub uint64Max stepMs) < expectedTimeMs then return false
        coversFrom stepMs (← u64 (expectedTimeMs + stepMs)) bars

def barSequenceCoversDenseRange (sequence : BarSequence P V) (request : BarHistoryRequest) : Lib.Machine.Exact Bool :=
  if request.symbol.isEmpty ∨ request.timeframe ≤ 0 ∨ request.fromTs ≤ 0 ∨ request.toTs < request.fromTs ∨
      sequence.timeframe ≠ request.timeframe ∨ sequence.symbol.isEmpty ∨
      normalizeSymbolName sequence.symbol ≠ normalizeSymbolName request.symbol then .ok false
  else
    let fromTs := request.fromTs.toNat
    let toTs := request.toTs.toNat
    let timeframe := request.timeframe.toNat
    if timeframe = 0 ∨ uint64Max / 1000 < fromTs ∨ uint64Max / 1000 < toTs then .ok false
    else do
      let expectedTimeMs ← u64 (fromTs * 1000)
      let stepMs ← if uint64Max / 1000 < timeframe then .ok 0 else u64 (timeframe * 1000)
      if stepMs = 0 ∨ sequence.bars.isEmpty then return false
      let expectedCount ← u64 ((← u64Sub toTs fromTs) / timeframe + 1)
      if sequence.bars.length ≠ expectedCount then return false
      coversFrom stepMs expectedTimeMs sequence.bars

end OptionX.IntradeBar
