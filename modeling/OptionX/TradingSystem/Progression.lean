import OptionX.TradingSystem.Aggregator

/-!
# The series progression

`SeriesProgression.hpp`: one series, at most one outstanding operation, and the receipts and identities it
has used up. Every call either is applied, and then raises the state revision, or changes nothing.
-/

namespace OptionX.TradingSystem

open Lib (OrderedMap OrderedSet)

/-- Shared counter ceiling; `begin` reserves room for one possible advance. -/
def maxSeriesStep : UInt32 := 2147483647

structure SeriesSnapshot where
  series : TradeSeries
  status : SeriesStatus := .active
  currentIntentId : IntentId := 0
  currentGroupId : ExecutionGroupId := 0
  currentStep : UInt32 := 0
  outcome : GroupOutcome := {}

structure SeriesProgression where
  state : SeriesSnapshot
  group : ExecutionGroupAggregator := {}
  hasGroup : Bool := false
  receipts : OrderedMap SettlementId TradeSettlement := .empty
  usedIntents : OrderedSet IntentId := .empty
  usedIntentKeys : OrderedSet String := .empty

namespace SeriesProgression

def create (series : TradeSeries) : SeriesProgression := { state := { series } }

def checkRevision (p : SeriesProgression) (expectedRevision : UInt64) : ProgressionResult :=
  if !p.state.series.valid then .invalidIdentity
  else if p.state.series.stateRevision != expectedRevision then .revisionConflict
  else if expectedRevision == 18446744073709551615 then .revisionOverflow
  else if maxSeriesStep < p.state.series.nextStep then .stepLimitReached
  else .applied

/-- The group that `begin` builds its aggregator for: a `zeroOrOne` operation reserves one slot. -/
def beginGroup (intent : TradeIntent) : ExecutionGroupIdentity :=
  if intent.cardinality == .zeroOrOne then { intent.executionGroup with expectedMembers := 1 }
  else intent.executionGroup

def beginAggregator (intent : TradeIntent) (tradeIds : List UInt64) (currency : CurrencyType)
    (precision : UInt8) : ExecutionGroupAggregator :=
  .create intent.intentId (beginGroup intent) tradeIds currency precision

/-- The checks of `begin`, in the order of the source. -/
def checkBegin (p : SeriesProgression) (intent : TradeIntent) (tradeIds : List UInt64)
    (currency : CurrencyType) (precision : UInt8) (expectedRevision : UInt64) : ProgressionResult :=
  let check := p.checkRevision expectedRevision
  if check != .applied then check
  else if p.state.status != .active then .invalidState
  else if p.state.series.nextStep == maxSeriesStep then .stepLimitReached
  else if !intent.valid || intent.seriesId != p.state.series.seriesId ||
      intent.originSignalId != p.state.series.originSignalId || intent.seriesStep < 0 ||
      intent.seriesStep.toUInt32 != p.state.series.nextStep then .invalidIdentity
  else if intent.status != .proposed && intent.status != .admitted then .invalidState
  else if intent.cardinality == .multiple then .unsupportedCardinality
  else if p.usedIntents.contains intent.intentId then .intentAlreadyUsed
  else if p.usedIntentKeys.contains intent.idempotencyKey then .idempotencyKeyAlreadyUsed
  else if !(beginAggregator intent tradeIds currency precision).valid then .invalidConfiguration
  else .applied

/-- The state after an accepted `begin`. -/
def begun (p : SeriesProgression) (intent : TradeIntent) (tradeIds : List UInt64)
    (currency : CurrencyType) (precision : UInt8) : SeriesProgression where
  group := beginAggregator intent tradeIds currency precision
  hasGroup := true
  usedIntents := p.usedIntents.emplace intent.intentId ()
  usedIntentKeys := p.usedIntentKeys.emplace intent.idempotencyKey ()
  receipts := p.receipts
  state :=
    { series := { p.state.series with stateRevision := p.state.series.stateRevision + 1 }
      status := .waitingOutcome
      currentIntentId := intent.intentId
      currentGroupId := (beginGroup intent).groupId
      currentStep := p.state.series.nextStep
      outcome := {} }

def begin (p : SeriesProgression) (intent : TradeIntent) (tradeIds : List UInt64)
    (currency : CurrencyType) (precision : UInt8) (expectedRevision : UInt64) :
    SeriesProgression × ProgressionResult :=
  match p.checkBegin intent tradeIds currency precision expectedRevision with
  | .applied => (p.begun intent tradeIds currency precision, .applied)
  | result => (p, result)

/-- Whether the series waits for the settlements of an operation. -/
def outstanding : SeriesStatus → Bool
  | .waitingOutcome | .unresolved | .blockedError => true
  | .active | .completed => false

/-- The checks of `apply`; an identical replay is answered before the revision is looked at. -/
def checkApply (p : SeriesProgression) (event : TradeSettlement) (expectedRevision : UInt64) :
    ProgressionResult :=
  match p.receipts.find? event.settlementId with
  | some receipt => if receipt == event then .duplicate else .settlementConflict
  | none =>
      let check := p.checkRevision expectedRevision
      if check != .applied then check
      else if !p.hasGroup || !outstanding p.state.status then .invalidState
      else p.group.check event

/-- What `apply` does with the outcome of the group it has applied the event to. -/
def conclude (p : SeriesProgression) (outcome : GroupOutcome) : SeriesProgression :=
  let p := { p with state := { p.state with outcome } }
  if outcome.allMembersTerminal && outcome.aggregationStatus == .numericOverflow then
    { p with state := { p.state with status := .blockedError } }
  else if outcome.final then
    let nextStep :=
      if outcome.netProfit.isSome then p.state.series.nextStep + 1 else p.state.series.nextStep
    { p with
      state := { p.state with
        series := { p.state.series with nextStep }
        status := .active
        currentIntentId := 0
        currentGroupId := 0 }
      hasGroup := false }
  else
    let status := if outcome.unresolved then .unresolved else .waitingOutcome
    { p with state := { p.state with status } }

/-- The state after an accepted event. -/
def advanced (p : SeriesProgression) (event : TradeSettlement) : SeriesProgression :=
  let group := p.group.record event
  let p := { p with group }.conclude group.outcome
  let series := { p.state.series with stateRevision := p.state.series.stateRevision + 1 }
  { p with
    receipts := p.receipts.emplace event.settlementId event
    state := { p.state with series } }

def apply (p : SeriesProgression) (event : TradeSettlement) (expectedRevision : UInt64) :
    SeriesProgression × ProgressionResult :=
  match p.checkApply event expectedRevision with
  | .applied => (p.advanced event, .applied)
  | result => (p, result)

def checkComplete (p : SeriesProgression) (expectedRevision : UInt64) : ProgressionResult :=
  let check := p.checkRevision expectedRevision
  if check != .applied then check
  else if p.state.status != .active then .invalidState
  else .applied

def completed (p : SeriesProgression) : SeriesProgression :=
  let series := { p.state.series with stateRevision := p.state.series.stateRevision + 1 }
  { p with state := { p.state with status := .completed, series } }

/-- Closes an idle series, never cancels an outstanding operation. -/
def complete (p : SeriesProgression) (expectedRevision : UInt64) :
    SeriesProgression × ProgressionResult :=
  match p.checkComplete expectedRevision with
  | .applied => (p.completed, .applied)
  | result => (p, result)

inductive Call where
  | begin (intent : TradeIntent) (tradeIds : List UInt64) (currency : CurrencyType)
      (precision : UInt8) (expectedRevision : UInt64)
  | apply (event : TradeSettlement) (expectedRevision : UInt64)
  | complete (expectedRevision : UInt64)

def step (p : SeriesProgression) : Call → SeriesProgression × ProgressionResult
  | .begin intent tradeIds currency precision expectedRevision =>
      p.begin intent tradeIds currency precision expectedRevision
  | .apply event expectedRevision => p.apply event expectedRevision
  | .complete expectedRevision => p.complete expectedRevision

end SeriesProgression

end OptionX.TradingSystem
