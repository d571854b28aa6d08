import OptionX.IntradeBar.BarAggregation
import OptionX.Lib.BinaryFloat
import OptionX.Lib.Machine
import OptionX.Lib.StableSort

/-!
# The archive of observed ticks

`ObservedTickHistory.hpp`: the bounded history of polled ticks, what it answers to a range, and its estimate of the
broker's clock. Prices and volumes have the equality test of the code, which need not be reflexive. Of the flags of a
tick only one is kept, since the archive reads none.
-/

namespace OptionX.IntradeBar

open Lib.BinaryFloat (roundBinary truncate)
open Lib.Machine (uint64Max int64Min int64Max)
open Lib.StableSort (sortOn)

structure IntradeObservedTickHistoryOptions where
  maxItemsPerSymbol : Nat := 10000
  maxLookbackMs : Nat := 7 * 24 * 60 * 60 * 1000
  samplingIntervalMs : Nat := 1000
  clockOffsetSampleCount : Nat := 9
  clockOffsetMaxAgeMs : Nat := 60 * 1000
  deriving DecidableEq, Repr

def IntradeObservedTickHistoryOptions.valid (options : IntradeObservedTickHistoryOptions) : Bool :=
  decide (0 < options.maxItemsPerSymbol) && decide (0 < options.samplingIntervalMs)

structure TickUpdateBatch (P V : Type) where
  items : List (Tick P V)
  symbol : String
  provider : String := ""
  priceDigits : Nat := 0
  volumeDigits : Nat := 0

structure TickHistoryRequest where
  symbol : String
  fromTimeMs : Nat
  toTimeMs : Nat
  deriving DecidableEq, Repr

def TickHistoryRequest.valid (request : TickHistoryRequest) : Bool :=
  !request.symbol.isEmpty && decide (0 < request.fromTimeMs) && decide (request.fromTimeMs ≤ request.toTimeMs)

structure TickSequence (P V : Type) where
  ticks : List (Tick P V) := []
  symbol : String := ""
  provider : String := ""
  source : String := ""
  priceDigits : Nat := 0
  volumeDigits : Nat := 0

structure TickHistoryResult (P V : Type) where
  success : Bool := false
  statusCode : Int := 0
  rangeComplete : Bool := false
  errorDesc : String := ""
  sequence : TickSequence P V := {}

variable {P V : Type}

def TickHistoryResult.ok (sequence : TickSequence P V) (rangeComplete : Bool) : TickHistoryResult P V :=
  { success := true, rangeComplete, sequence }

def TickHistoryResult.fail (message : String) : TickHistoryResult P V :=
  { statusCode := -1, errorDesc := message }

/-! ## What is retained -/

structure SymbolHistory (P V : Type) where
  items : List (Tick P V) := []
  provider : String := ""
  priceDigits : Nat := 0
  volumeDigits : Nat := 0

/-- The samples of the broker's clock. -/
structure ClockSamples where
  offsetsMs : List Int := []
  latestReceivedMs : Nat := 0
  deriving DecidableEq, Repr

structure IntradeObservedTickHistory (P V : Type) where
  symbols : String → Option (SymbolHistory P V) := fun _ => none
  clock : ClockSamples := {}

section

variable [BEq P] [BEq V]

def sameMarketObservation (lhs rhs : Tick P V) : Bool :=
  lhs.ask == rhs.ask && lhs.bid == rhs.bid && lhs.last == rhs.last && lhs.reference == rhs.reference &&
    lhs.volume == rhs.volume && lhs.timeMs == rhs.timeMs

def containsObservation (items : List (Tick P V)) (tick : Tick P V) : Bool :=
  items.any fun stored => sameMarketObservation stored tick

end

def observationOffset (tick : Tick P V) : Int :=
  if int64Max < tick.timeMs ∨ int64Max < tick.receivedMs then 0
  else if tick.receivedMs ≤ tick.timeMs then (tick.timeMs : Int) - tick.receivedMs
  else
    let difference := (tick.receivedMs : Int) - tick.timeMs
    if difference = int64Max then int64Min else -difference

def recordClockOffset (options : IntradeObservedTickHistoryOptions) (clock : ClockSamples) (tick : Tick P V) :
    ClockSamples :=
  if tick.receivedMs = 0 ∨ options.clockOffsetSampleCount = 0 then clock
  else
    let offsets := clock.offsetsMs ++ [observationOffset tick]
    { latestReceivedMs := max clock.latestReceivedMs tick.receivedMs
      offsetsMs := offsets.drop (offsets.length - options.clockOffsetSampleCount) }

/-- The first of the ticks with the smallest time leaves. -/
def eraseOldest (items : List (Tick P V)) : List (Tick P V) :=
  match (items.map (·.timeMs)).min? with
  | none => items
  | some oldest => items.eraseP (·.timeMs == oldest)

/-- The ticks that are not behind the newest by more than the lookback. -/
def recent (options : IntradeObservedTickHistoryOptions) (newest : Nat) (items : List (Tick P V)) :
    List (Tick P V) :=
  let cutoff := if options.maxLookbackMs < newest then newest - options.maxLookbackMs else 0
  items.filter fun stored => !decide (stored.timeMs < cutoff)

def prune (options : IntradeObservedTickHistoryOptions) (items : List (Tick P V)) : List (Tick P V) :=
  let kept := eraseOldest^[items.length - options.maxItemsPerSymbol] items
  match (kept.map (·.timeMs)).max? with
  | none => kept
  | some newest => if options.maxLookbackMs = 0 then kept else recent options newest kept

section

variable [BEq P] [BEq V]

/-- One tick of a batch. -/
def recordTick (options : IntradeObservedTickHistoryOptions) (state : List (Tick P V) × ClockSamples)
    (tick : Tick P V) : List (Tick P V) × ClockSamples :=
  if tick.timeMs = 0 ∨ containsObservation state.1 tick then state
  else (state.1 ++ [tick], recordClockOffset options state.2 tick)

def recordBatch (options : IntradeObservedTickHistoryOptions) (s : IntradeObservedTickHistory P V)
    (batch : TickUpdateBatch P V) : IntradeObservedTickHistory P V :=
  if batch.symbol.isEmpty then s
  else
    let history := (s.symbols batch.symbol).getD {}
    let (items, clock) := batch.items.foldl (recordTick options) (history.items, s.clock)
    { symbols := Function.update s.symbols batch.symbol (some
        { items := prune options items
          provider := if batch.provider.isEmpty then "INTRADE_BAR" else batch.provider
          priceDigits := batch.priceDigits
          volumeDigits := batch.volumeDigits })
      clock }

def IntradeObservedTickHistory.record (options : IntradeObservedTickHistoryOptions)
    (s : IntradeObservedTickHistory P V) (batches : List (TickUpdateBatch P V)) : IntradeObservedTickHistory P V :=
  batches.foldl (recordBatch options) s

end

/-! ## The answer to a range -/

/-- The outer loop of `has_complete_coverage`; nothing where the fuel runs out. -/
def coverageFrom (interval toTimeMs : Nat) : Nat → List (Tick P V) → Nat → Option Bool
  | 0, _, _ => none
  | fuel + 1, ticks, expected =>
      match ticks.dropWhile fun tick => tick.timeMs < expected with
      | [] => some false
      | tick :: rest =>
          if tick.timeMs ≠ expected then some false
          else if expected = toTimeMs then some true
          else if uint64Max - interval < expected then some false
          else coverageFrom interval toTimeMs fuel (tick :: rest) (expected + interval)

def hasCompleteCoverage (options : IntradeObservedTickHistoryOptions) (fuel : Nat) (ticks : List (Tick P V))
    (fromTimeMs toTimeMs : Nat) : Option Bool :=
  let interval := options.samplingIntervalMs
  if interval = 0 ∨ fromTimeMs % interval ≠ 0 ∨ toTimeMs % interval ≠ 0 then some false
  else coverageFrom interval toTimeMs fuel ticks fromTimeMs

def IntradeObservedTickHistory.fetch (options : IntradeObservedTickHistoryOptions) (fuel : Nat)
    (s : IntradeObservedTickHistory P V) (request : TickHistoryRequest) : Option (TickHistoryResult P V) :=
  if !request.valid then some (.fail "Invalid Intrade observed tick history request.")
  else if 0 < options.maxLookbackMs ∧ options.maxLookbackMs < request.toTimeMs - request.fromTimeMs then
    some (.fail "Intrade observed tick history request exceeds the configured lookback.")
  else
    match s.symbols request.symbol with
    | none => some (.ok { symbol := request.symbol, source := "LOCAL_OBSERVED" } false)
    | some history =>
        let inRange := history.items.filter fun stored =>
          request.fromTimeMs ≤ stored.timeMs ∧ stored.timeMs ≤ request.toTimeMs
        let ticks := sortOn (·.timeMs) inRange
        (hasCompleteCoverage options fuel ticks request.fromTimeMs request.toTimeMs).map fun complete =>
          .ok { ticks
                symbol := request.symbol
                provider := history.provider
                source := "LOCAL_OBSERVED"
                priceDigits := history.priceDigits
                volumeDigits := history.volumeDigits } complete

/-! ## The broker's clock -/

def hasFreshClockEstimate (options : IntradeObservedTickHistoryOptions) (clock : ClockSamples) (localTimeMs : Nat) :
    Bool :=
  if clock.offsetsMs = [] ∨ clock.latestReceivedMs = 0 ∨ localTimeMs = 0 then false
  else if options.clockOffsetMaxAgeMs = 0 then true
  else
    let age := if clock.latestReceivedMs ≤ localTimeMs then localTimeMs - clock.latestReceivedMs
      else clock.latestReceivedMs - localTimeMs
    age ≤ options.clockOffsetMaxAgeMs

/-- The least value so far with more than `rank` of all values no greater. -/
def selectStep (values : List Int) (rank : Nat) (selected : Option Int) (candidate : Int) : Option Int :=
  let notGreater := values.countP (· ≤ candidate)
  if rank < notGreater ∧ ∀ best ∈ selected, candidate < best then some candidate else selected

def select (values : List Int) (rank : Nat) : Int := (values.foldl (selectStep values rank) none).getD 0

/-- The x87 format: 64 bits of significand hold every whole number of the sum below. -/
def longDouble : ℚ → ℚ := roundBinary 64

def medianClockOffset (offsets : List Int) : Int :=
  if offsets = [] then 0
  else
    let middle := offsets.length / 2
    if offsets.length % 2 ≠ 0 then select offsets middle
    else
      let lower := select offsets (middle - 1)
      let upper := select offsets middle
      truncate (longDouble (longDouble (longDouble lower + longDouble upper) / 2))

def addOffset (localTimeMs : Nat) (offsetMs : Int) : Nat :=
  if 0 ≤ offsetMs then
    let positive := offsetMs.toNat
    if uint64Max - positive < localTimeMs then uint64Max else localTimeMs + positive
  else
    let negative := (-offsetMs).toNat
    if localTimeMs < negative then 0 else localTimeMs - negative

def IntradeObservedTickHistory.providerTimeMs (options : IntradeObservedTickHistoryOptions)
    (s : IntradeObservedTickHistory P V) (localTimeMs : Nat) : Nat :=
  if !hasFreshClockEstimate options s.clock localTimeMs then 0
  else
    let adjusted := addOffset localTimeMs (medianClockOffset s.clock.offsetsMs)
    let interval := options.samplingIntervalMs
    if interval = 0 then adjusted else adjusted - adjusted % interval

/-! ## Runs -/

inductive TickHistoryEvent (P V : Type) where
  | record (batches : List (TickUpdateBatch P V))
  | clear

def IntradeObservedTickHistory.step [BEq P] [BEq V] (options : IntradeObservedTickHistoryOptions)
    (s : IntradeObservedTickHistory P V) : TickHistoryEvent P V → IntradeObservedTickHistory P V × Unit
  | .record batches => (s.record options batches, ())
  | .clear => ({}, ())

end OptionX.IntradeBar
