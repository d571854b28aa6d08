import OptionX.MarketData.Types

/-!
# Live bars of an Intrade Bar subscription

The accumulator of one bar subscription of `MarketDataSubscriptionManager.hpp`. Prices are any linear order with a
zero for a missing price, volumes any type with an addition: of prices the code compares, of volumes it makes sums
in the order of arrival.
-/

namespace OptionX.IntradeBar

open MarketData (PayloadFlags u64Max)

/-- The midpoint of a quote. -/
class Midpoint (P : Type) where
  midpoint : P → P → P

structure Tick (P V : Type) where
  ask : P
  bid : P
  last : P
  reference : P
  volume : V
  timeMs : Nat
  receivedMs : Nat
  initialized : Bool

inductive BarPriceSource where
  | unknown | bid | ask | mid | last
  deriving DecidableEq, Repr

inductive MarketPriceType where
  | unknown | bid | ask | mid | last
  deriving DecidableEq, Repr

def BarPriceSource.priceType : BarPriceSource → MarketPriceType
  | .bid => .bid
  | .ask => .ask
  | .mid => .mid
  | .last => .last
  | .unknown => .unknown

structure Bar (P V : Type) where
  opening : P
  high : P
  low : P
  close : P
  volume : V
  timeMs : Nat
  flags : PayloadFlags := {}
  initialized : Bool := false
  priceType : MarketPriceType := .unknown
  deriving DecidableEq

/-- What a bar subscription fixes of its bars; the timeframe counts in seconds. -/
structure BarSubscription where
  timeframe : Nat
  priceSource : BarPriceSource := .mid
  timeframe_pos : 0 < timeframe

def BarSubscription.timeframeMs (sub : BarSubscription) : Nat := sub.timeframe * 1000

structure BarAggregationState (P V : Type) where
  current : Bar P V
  firstTickTimeMs : Nat := 0
  lastTickTimeMs : Nat := 0
  initialized : Bool := false

variable {P V : Type}

/-- The time of a tick, or else the time of its receipt; zero for neither. -/
def Tick.timestampMs (tick : Tick P V) : Nat :=
  if tick.timeMs ≠ 0 then tick.timeMs else tick.receivedMs

def BarSubscription.bucketMs (sub : BarSubscription) (tick : Tick P V) : Nat :=
  tick.timestampMs / sub.timeframeMs * sub.timeframeMs

/-- A bar is finished: it is incomplete no more. -/
def Bar.finalize (bar : Bar P V) : Bar P V :=
  { bar with flags := { bar.flags with incomplete := false, finalized := true } }

/-- Closes the current bar when its bucket has ended on the clock. -/
def BarSubscription.finalizeElapsedBar (sub : BarSubscription) (nowMs : Nat) (s : BarAggregationState P V) :
    Option (BarAggregationState P V) :=
  if !s.initialized || s.current.flags.finalized then none
  else if u64Max - sub.timeframeMs < s.current.timeMs then none
  else if nowMs < s.current.timeMs + sub.timeframeMs then none
  else some { s with current := s.current.finalize }

section

variable [LinearOrder P] [Zero P] [Midpoint P]

def Tick.midPrice (tick : Tick P V) : P :=
  if tick.ask ≠ 0 ∧ tick.bid ≠ 0 then Midpoint.midpoint tick.ask tick.bid
  else if tick.last ≠ 0 then tick.last
  else if tick.ask ≠ 0 then tick.ask
  else if tick.bid ≠ 0 then tick.bid
  else tick.reference

def Tick.price (tick : Tick P V) : BarPriceSource → P
  | .bid => tick.bid
  | .ask => tick.ask
  | .last => if tick.last ≠ 0 then tick.last else tick.midPrice
  | .mid => tick.midPrice
  | .unknown => tick.midPrice

/-- The flags of a bar that a tick has just changed. -/
def BarSubscription.markUpdated (sub : BarSubscription) (bar : Bar P V) : Bar P V :=
  { bar with
    flags := { bar.flags.markLive false with incomplete := true, finalized := false }
    initialized := true
    priceType := sub.priceSource.priceType }

/-- The first tick of a bucket opens a bar. -/
def BarSubscription.openBar (sub : BarSubscription) (tick : Tick P V) : Bar P V :=
  let price := tick.price sub.priceSource
  { opening := price, high := price, low := price, close := price, volume := tick.volume
    timeMs := sub.bucketMs tick
    flags := { ({} : PayloadFlags).markLive false with incomplete := true }
    initialized := true
    priceType := sub.priceSource.priceType }

variable [Add V]

/-- A further tick of the current bucket. -/
def BarSubscription.updateBar (sub : BarSubscription) (tick : Tick P V) (s : BarAggregationState P V) :
    BarAggregationState P V :=
  let price := tick.price sub.priceSource
  let opens := s.firstTickTimeMs = 0 ∨ tick.timestampMs < s.firstTickTimeMs
  let closes := s.lastTickTimeMs = 0 ∨ s.lastTickTimeMs ≤ tick.timestampMs
  { s with
    current := sub.markUpdated { s.current with
      opening := if opens then price else s.current.opening
      high := max s.current.high price
      low := min s.current.low price
      close := if closes then price else s.current.close
      volume := s.current.volume + tick.volume }
    firstTickTimeMs := if opens then tick.timestampMs else s.firstTickTimeMs
    lastTickTimeMs := if closes then tick.timestampMs else s.lastTickTimeMs }

/-- `append_bar_updates`: the accumulator after a tick, and the bars it appends. -/
def BarSubscription.appendBarUpdates (sub : BarSubscription) (tick : Tick P V) (s : BarAggregationState P V) :
    BarAggregationState P V × List (Bar P V) :=
  let bucketMs := sub.bucketMs tick
  if !tick.initialized then (s, [])
  else if tick.timestampMs = 0 then (s, [])
  else if tick.price sub.priceSource = 0 then (s, [])
  else if s.initialized && bucketMs < s.current.timeMs then (s, [])
  else if s.initialized && bucketMs == s.current.timeMs && s.current.flags.finalized then (s, [])
  else if !s.initialized || s.current.timeMs != bucketMs then
    let opened := sub.openBar tick
    ({ current := opened, firstTickTimeMs := tick.timestampMs, lastTickTimeMs := tick.timestampMs
       initialized := true },
      (if s.initialized && !s.current.flags.finalized then [s.current.finalize] else []) ++ [opened])
  else
    let s := sub.updateBar tick s
    (s, [s.current])

/-- A bar subscription as the manager keeps it: the accumulator and the bars of the pending batch. -/
structure BarFeed (P V : Type) where
  state : BarAggregationState P V
  pending : List (Bar P V) := []

def BarFeed.create [Zero V] : BarFeed P V where
  state := { current := ⟨0, 0, 0, 0, 0, 0, {}, false, .unknown⟩ }

def BarFeed.append (sub : BarSubscription) (feed : BarFeed P V) (tick : Tick P V) : BarFeed P V :=
  let r := sub.appendBarUpdates tick feed.state
  ⟨r.1, feed.pending ++ r.2⟩

inductive BarFeed.Event (P V : Type) where
  /-- A price update with ticks of the subscription's symbol. -/
  | priceUpdate (ticks : List (Tick P V))
  | process (nowMs : Nat)

/-- One event; `process` sends the pending bars. -/
def BarFeed.step (sub : BarSubscription) (feed : BarFeed P V) : BarFeed.Event P V → BarFeed P V × List (Bar P V)
  | .priceUpdate ticks => (ticks.foldl (BarFeed.append sub) feed, [])
  | .process nowMs =>
      match sub.finalizeElapsedBar nowMs feed.state with
      | none => ({ feed with pending := [] }, feed.pending)
      | some state => (⟨state, []⟩, feed.pending ++ [state.current])

end

end OptionX.IntradeBar
