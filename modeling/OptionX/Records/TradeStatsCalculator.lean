import OptionX.Lib.StableSort
import OptionX.Lib.Tally
import OptionX.Records.TradeStats

/-!
# TradeStatsCalculator

`TradeStatsCalculator.hpp`. The source makes one pass over the records; here each figure is computed from the records
that reach it in that pass, in their order.
-/

namespace OptionX.Records

open Lib (OrderedMap)
open Lib.StableSort (sortOn runs)
open Lib.Tally (collect)
open Storage (PlatformType)
open TradeExecution (AccountType TradeState)
open TradingSystem (CurrencyType)

namespace TradeStatsCalculator

structure AccountKey where
  platformType : PlatformType := .unknown
  accountType : AccountType := .unknown
  accountId : Int := 0
  currency : CurrencyType := .unknown
  deriving DecidableEq

/-- The fields in the order in which `operator<` compares them. -/
def AccountKey.fields (key : AccountKey) : PlatformType ×ₗ AccountType ×ₗ Int ×ₗ CurrencyType :=
  toLex (key.platformType, toLex (key.accountType, toLex (key.accountId, key.currency)))

instance AccountKey.linearOrder : LinearOrder AccountKey :=
  LinearOrder.lift' AccountKey.fields fun a b h => by
    cases a; cases b
    simpa [AccountKey.fields, and_assoc] using h

structure BalanceSnapshotEvent where
  ts : Int
  openTs : Int
  account : AccountKey
  currency : CurrencyType
  openBalance : ℚ
  hasOpenBalance : Bool
  closeBalance : ℚ
  profit : ℚ

structure OutcomeEvent where
  resultTs : Int
  decisionTs : Int
  tradeId : UInt32
  uniqueId : Int
  tradeState : TradeState
  deriving DecidableEq

def outcomeResultTimestamp (rec : TradeRecord ℚ) : Int :=
  if 0 < rec.closeDate then rec.closeDate
  else if 0 < rec.openDate then rec.openDate
  else rec.selectTimestampMs .auto

def outcomeDecisionTimestamp (rec : TradeRecord ℚ) (resultTs : Int) : Int :=
  if 0 < rec.placeDate then rec.placeDate
  else if 0 < rec.sendDate then rec.sendDate
  else if 0 < rec.openDate then rec.openDate
  else resultTs

def makeOutcomeEvent (rec : TradeRecord ℚ) : OutcomeEvent :=
  let resultTs := outcomeResultTimestamp rec
  { resultTs, decisionTs := outcomeDecisionTimestamp rec resultTs, tradeId := rec.tradeId, uniqueId := rec.uniqueId,
    tradeState := rec.tradeState }

section Series

/-- The variables of the loop of `recount_series`. -/
structure SeriesCount where
  curWin : Nat := 0
  curLoss : Nat := 0
  maxW : Nat := 0
  maxL : Nat := 0
  countW : Nat := 0
  countL : Nat := 0
  totalWLen : Nat := 0
  totalLLen : Nat := 0

namespace SeriesCount

def closeWin (s : SeriesCount) : SeriesCount :=
  if 0 < s.curWin then
    { s with countW := s.countW + 1, maxW := max s.maxW s.curWin, totalWLen := s.totalWLen + s.curWin, curWin := 0 }
  else s

def closeLoss (s : SeriesCount) : SeriesCount :=
  if 0 < s.curLoss then
    { s with countL := s.countL + 1, maxL := max s.maxL s.curLoss, totalLLen := s.totalLLen + s.curLoss, curLoss := 0 }
  else s

def next (s : SeriesCount) (event : OutcomeEvent) : SeriesCount :=
  match event.tradeState with
  | .win => let s := s.closeLoss; { s with curWin := s.curWin + 1 }
  | .loss => let s := s.closeWin; { s with curLoss := s.curLoss + 1 }
  | _ => s.closeWin.closeLoss

end SeriesCount

/-- The sort key of the outcomes. -/
def OutcomeEvent.key (event : OutcomeEvent) : Int ×ₗ Int ×ₗ UInt32 ×ₗ Int :=
  toLex (event.resultTs, toLex (event.decisionTs, toLex (event.tradeId, event.uniqueId)))

def recountSeries (events : List OutcomeEvent) : TradeSeriesStats :=
  let s := (sortOn OutcomeEvent.key events).foldl SeriesCount.next {}
  -- the trailing series is closed, but its length stays known
  let closed := s.closeWin.closeLoss
  { maxWinSeries := closed.maxW
    maxLossSeries := closed.maxL
    totalWinSeries := closed.countW
    totalLossSeries := closed.countL
    avgWinSeries := if 0 < closed.countW then closed.totalWLen / closed.countW else 0
    avgLossSeries := if 0 < closed.countL then closed.totalLLen / closed.countL else 0
    currentSeries := if 0 < s.curWin then s.curWin else s.curLoss
    currentIsWin := 0 < s.curWin }

end Series

section Money

variable {Zone : Type} (config : TradeStatsConfig Zone)

def convertMoney (value : ℚ) («from» : CurrencyType) (timestampMs : Int) : ℚ :=
  let «to» := config.currencyMatrix.baseCurrency
  match config.convertCurrency with
  | some convertCurrency => convertCurrency value «from» «to» timestampMs
  | none =>
      if «to» ≠ .unknown then config.currencyMatrix.convertToBase value «from»
      else
        match config.convert with
        | some convert => convert value «from»
        | none => value

def curveTs (rec : TradeRecord ℚ) : Int := if 0 < rec.closeDate then rec.closeDate else rec.openDate

def amountTs (rec : TradeRecord ℚ) : Int := if 0 < rec.openDate then rec.openDate else curveTs rec

def amount (rec : TradeRecord ℚ) : ℚ := convertMoney config rec.amount rec.currency (amountTs rec)

def profit (rec : TradeRecord ℚ) : ℚ := convertMoney config rec.profit rec.currency (curveTs rec)

/-- The snapshot of a record with a close balance and a time on the curve. -/
def balanceEvent (rec : TradeRecord ℚ) : Option BalanceSnapshotEvent :=
  if 0 < curveTs rec ∧ rec.hasCloseBalance = true then
    some {
      ts := curveTs rec
      openTs := if 0 < rec.openDate then rec.openDate else curveTs rec
      account := {
        platformType := rec.platformType
        accountType := rec.accountType
        accountId := rec.accountId
        currency := rec.currency }
      currency := rec.currency
      openBalance := rec.openBalance
      hasOpenBalance := rec.hasOpenBalance
      closeBalance := rec.closeBalance
      profit := rec.profit }
  else none

/-- The locks and releases of cash. -/
def cashEvents (rec : TradeRecord ℚ) : List (Int × ℚ) :=
  (if 0 < rec.openDate then [(rec.openDate, -amount config rec)] else []) ++
    if 0 < curveTs rec then [(curveTs rec, amount config rec + profit config rec)] else []

def closeBalanceOf (event : BalanceSnapshotEvent) : ℚ := convertMoney config event.closeBalance event.currency event.ts

def initialBalanceForEvent (event : BalanceSnapshotEvent) : ℚ :=
  if event.hasOpenBalance then
    convertMoney config event.openBalance event.currency (if 0 < event.openTs then event.openTs else event.ts)
  else closeBalanceOf config event - convertMoney config event.profit event.currency event.ts

def appendEquitySample (stats : EquityStats) (ts : Int) (equity baseline : ℚ) : EquityStats :=
  { stats with
    equityCurve := stats.equityCurve.push ts equity
    profitCurve := stats.profitCurve.push ts (equity - baseline)
    profitPercentCurve :=
      if 0 < baseline then stats.profitPercentCurve.push ts ((equity - baseline) / baseline * 100)
      else stats.profitPercentCurve }

/-- The figures after a sample, where `peak` counts it already. -/
def updateEquityDrawdown (stats : EquityStats) (ts : Int) (equity peak : ℚ) : EquityStats :=
  let dd := peak - equity
  let stats :=
    if dd > stats.maxAbsoluteDrawdown then { stats with maxAbsoluteDrawdown := dd, maxDrawdownDate := ts } else stats
  if 0 < peak then { stats with maxRelativeDrawdown := max stats.maxRelativeDrawdown (dd / peak) } else stats

/-- The variables of the curve builders. -/
structure CurveLoop where
  stats : EquityStats := {}
  hasBaseline : Bool := false
  baseline : ℚ := 0
  equity : ℚ := 0
  peak : ℚ := 0
  accountBalances : OrderedMap AccountKey ℚ := .empty

/-- A sample at the end of a timestamp. -/
def CurveLoop.sample (loop : CurveLoop) (ts : Int) : CurveLoop :=
  let peak := max loop.peak loop.equity
  { loop with
    peak
    stats := updateEquityDrawdown (appendEquitySample loop.stats ts loop.equity loop.baseline) ts loop.equity peak }

def buildSyntheticCurves (realizedProfitByTs : OrderedMap Int ℚ) : EquityStats :=
  (realizedProfitByTs.entries.foldl
    (fun loop kv => ({ loop with equity := loop.equity + kv.2 } : CurveLoop).sample kv.1)
    { baseline := config.startBalance, equity := config.startBalance, peak := config.startBalance }).stats

/-- The sort key of the snapshots. -/
def BalanceSnapshotEvent.key (event : BalanceSnapshotEvent) : Int ×ₗ AccountKey := toLex (event.ts, event.account)

/-- The loop of both balance builders: the events of one timestamp, and then a sample. -/
def buildBalanceCurves (event : CurveLoop → BalanceSnapshotEvent → CurveLoop) (events : List BalanceSnapshotEvent) :
    EquityStats :=
  ((runs BalanceSnapshotEvent.ts (sortOn BalanceSnapshotEvent.key events)).foldl
    (fun loop run => (run.2.foldl event loop).sample run.1) ({} : CurveLoop)).stats

def recordBalanceEvent (loop : CurveLoop) (event : BalanceSnapshotEvent) : CurveLoop :=
  let loop :=
    if loop.hasBaseline then loop
    else
      let baseline := initialBalanceForEvent config event
      { loop with baseline, peak := baseline, hasBaseline := true }
  { loop with equity := closeBalanceOf config event }

def portfolioBalanceEvent (loop : CurveLoop) (event : BalanceSnapshotEvent) : CurveLoop :=
  let closeBalance := closeBalanceOf config event
  let loop :=
    match loop.accountBalances.find? event.account with
    | some _ => loop
    | none =>
        let initialBalance := initialBalanceForEvent config event
        let baseline := loop.baseline + initialBalance
        { loop with
          baseline
          equity := loop.equity + initialBalance
          accountBalances := loop.accountBalances.emplace event.account initialBalance
          peak := if loop.hasBaseline then loop.peak else baseline
          hasBaseline := true }
  { loop with
    equity := loop.equity + (closeBalance - (loop.accountBalances.find? event.account).getD 0)
    accountBalances := loop.accountBalances.set event.account closeBalance }

def buildRecordBalanceCurves (events : List BalanceSnapshotEvent) : EquityStats :=
  buildBalanceCurves (recordBalanceEvent config) events

def buildPortfolioBalanceCurves (events : List BalanceSnapshotEvent) : EquityStats :=
  buildBalanceCurves (portfolioBalanceEvent config) events

/-- The variables of the sweep over the cash events. -/
structure FreeFundsLoop where
  stats : FreeFundsStats := {}
  freeFunds : ℚ
  peakFree : ℚ

def FreeFundsLoop.sample (loop : FreeFundsLoop) (ts : Int) (delta : ℚ) : FreeFundsLoop :=
  let freeFunds := loop.freeFunds + delta
  let peakFree := max loop.peakFree freeFunds
  let dd := peakFree - freeFunds
  let stats :=
    if dd > loop.stats.maxAbsoluteDrawdownFree then
      { loop.stats with maxAbsoluteDrawdownFree := dd, maxDrawdownDateFree := ts }
    else loop.stats
  let stats :=
    if 0 < peakFree then { stats with maxRelativeDrawdownFree := max stats.maxRelativeDrawdownFree (dd / peakFree) }
    else stats
  { freeFunds, peakFree, stats := { stats with freeFundsCurve := stats.freeFundsCurve.push ts freeFunds } }

/-- The sweep, after a sort that leaves the order within a timestamp open. -/
def buildFreeFundsCurve (events : List (Int × ℚ)) : FreeFundsStats :=
  ((runs Prod.fst (sortOn Prod.fst events)).foldl
    (fun (loop : FreeFundsLoop) run => loop.sample run.1 (run.2.foldl (fun delta event => delta + event.2) 0))
    { freeFunds := config.startBalance, peakFree := config.startBalance }).stats

end Money

section Calc

variable {Zone : Type} (shield : TimeShield Zone) (config : TradeStatsConfig Zone)

def includeBySelection (rec : TradeRecord ℚ) : Bool :=
  if config.selection = .firstMmStep ∧ rec.mmStep ≠ 0 then false
  else if config.selection = .lastInGroup then rec.lastInGroup
  else true

def includeSelected (rec : TradeRecord ℚ) : Bool :=
  matchFilter shield rec config.filter config.timeZone 0 && includeBySelection config rec

/-- The flags on error states and on states that are not terminal. -/
def includeState (rec : TradeRecord ℚ) : Bool :=
  !(!config.includeErrors && isErrorTradeState rec.tradeState) &&
    !(!config.includeNonTerminal && !isTerminalTradeState rec.tradeState)

/-- Whether a record reaches the money figures. -/
def hasResult (rec : TradeRecord ℚ) : Bool := includeSelected shield config rec && isResultState rec.tradeState

/-- Whether a record reaches the outcome counters. -/
def hasOutcome (rec : TradeRecord ℚ) : Bool :=
  includeSelected shield config rec && includeState config rec && isTerminalTradeState rec.tradeState

/-- `add` for all records, and `calc`. -/
def winrate (records : List (TradeRecord ℚ)) : TradeWinrateStats := (records.foldl TradeWinrateStats.add {}).calc

/-- The counters under the keys of the records. -/
def winrateBy {κ : Type} [LinearOrder κ] (key : TradeRecord ℚ → Option κ) (records : List (TradeRecord ℚ)) :
    OrderedMap κ TradeWinrateStats := (collect TradeWinrateStats.add {} key records).mapValues .calc

/-- The counters in an array; an index that is out of bounds is not counted. -/
def winrateAt (n : Nat) (index : TradeRecord ℚ → Option Int) (records : List (TradeRecord ℚ)) :
    Fin n → TradeWinrateStats := fun i => winrate (records.filter fun r => index r = some (i : Int))

/-- A component of the local time of a record that has a time. -/
def localIndex (component : Int → Int) (rec : TradeRecord ℚ) : Option Int :=
  let ts := rec.selectTimestampMs .auto
  if 0 < ts then some (component ts) else none

def chartOf (m : OrderedMap Int ℚ) : TradeChartData := { xTime := m.keys, yValue := m.values }

/-- The profits under a time of the curve. -/
def profitBy (time : Int → Int) (records : List (TradeRecord ℚ)) : OrderedMap Int ℚ :=
  collect (fun sum r => sum + profit config r) 0 (fun r => if 0 < curveTs r then some (time (curveTs r)) else none) records

def buildEquityCurves (results : List (TradeRecord ℚ)) : EquityStats :=
  let balanceEvents := results.filterMap balanceEvent
  match config.equityMode with
  | .recordBalance => buildRecordBalanceCurves config balanceEvents
  | .portfolioBalance => buildPortfolioBalanceCurves config balanceEvents
  | .syntheticProfit => buildSyntheticCurves config (profitBy config id results)

def «calc» (records : List (TradeRecord ℚ)) : TradeStats :=
  let results := records.filter (hasResult shield config)
  let outcomes := records.filter (hasOutcome shield config)
  let totalVolume := (results.map (amount config)).sum
  let profits := results.map (profit config)
  let grossProfit := (profits.filter (0 < ·)).sum
  let grossLoss := ((profits.filter (· < 0)).map (- ·)).sum
  let average := fun total : ℚ => if results.length > 0 then total / results.length else 0
  let dt := config.timeZone.localDateTime shield
  { total := winrate outcomes
    buy := winrate (outcomes.filter fun r => r.orderType = .buy)
    sell := winrate (outcomes.filter fun r => r.orderType = .sell)
    bySymbol := winrateBy (fun r => if r.symbol ≠ "" then some r.symbol else none) outcomes
    bySignal := winrateBy (fun r => if r.signalName ≠ "" then some r.signalName else none) outcomes
    byPlatform := winrateBy (fun r => some r.platformType) outcomes
    byCurrency := winrateBy (fun r => some r.currency) outcomes
    byDuration := winrateBy (fun r => if 0 < r.duration then some r.duration else none) outcomes
    byMmStep := winrateBy (fun r => some r.mmStep) outcomes
    bySec := winrateAt 86400 (localIndex fun ts => (dt ts).hour * 3600 + (dt ts).min * 60 + (dt ts).sec) outcomes
    byMin := winrateAt 1440 (localIndex fun ts => (dt ts).hour * 60 + (dt ts).min) outcomes
    byHour := winrateAt 24 (localIndex fun ts => (dt ts).hour) outcomes
    byWeekday := winrateAt 7 (localIndex (config.timeZone.localWeekday shield)) outcomes
    byMonthDay := winrateAt 31 (localIndex fun ts => (dt ts).day - 1) outcomes
    byMonth := winrateAt 12 (localIndex fun ts => (dt ts).mon - 1) outcomes
    bySecond := winrateAt 60 (localIndex fun ts => (dt ts).sec) outcomes
    totalVolume
    totalProfit := profits.sum
    grossProfit
    grossLoss
    profitFactor := if 0 < grossLoss then ↑(grossProfit / grossLoss) else if 0 < grossProfit then ⊤ else ↑(0 : ℚ)
    averageAmount := average totalVolume
    averageProfit := average profits.sum
    averageProfitPerTrade := average profits.sum
    maxProfitTrade := profits.foldl max 0
    maxLossTrade := profits.foldl min 0
    dailyProfit := chartOf (profitBy config (config.timeZone.startOfLocalDayUtcMs shield) results)
    hourlyProfit := chartOf (profitBy config (config.timeZone.startOfLocalHourUtcMs shield) results)
    series := recountSeries (outcomes.map makeOutcomeEvent)
    ping := winrateBy (fun r => if 0 < r.ping then some r.ping else none) results
    toEquityStats := buildEquityCurves config results
    toFreeFundsStats :=
      if config.balanceMode = .sweepLine then buildFreeFundsCurve config (results.flatMap (cashEvents config)) else {} }

end Calc

end TradeStatsCalculator

end OptionX.Records
