import OptionX.Lib.OrderedMap
import OptionX.Records.TradeRecordFilter

/-!
# Trade statistics

`TradeStats.hpp`. Money and rates are exact rationals, a profit factor without losses is the top element.
-/

namespace OptionX.Storage

theorem PlatformType.ctorIdx_injective : Function.Injective PlatformType.ctorIdx := by
  intro a b h
  cases a <;> cases b <;> first | rfl | cases h

instance PlatformType.linearOrder : LinearOrder PlatformType := LinearOrder.lift' PlatformType.ctorIdx PlatformType.ctorIdx_injective

end OptionX.Storage

namespace OptionX.TradeExecution

theorem AccountType.ctorIdx_injective : Function.Injective AccountType.ctorIdx := by
  intro a b h
  cases a <;> cases b <;> first | rfl | cases h

instance AccountType.linearOrder : LinearOrder AccountType := LinearOrder.lift' AccountType.ctorIdx AccountType.ctorIdx_injective

end OptionX.TradeExecution

namespace OptionX.TradingSystem

theorem CurrencyType.ctorIdx_injective : Function.Injective CurrencyType.ctorIdx := by
  intro a b h
  cases a <;> cases b <;> first | rfl | cases h

instance CurrencyType.linearOrder : LinearOrder CurrencyType := LinearOrder.lift' CurrencyType.ctorIdx CurrencyType.ctorIdx_injective

end OptionX.TradingSystem

namespace OptionX.Records

open Lib (OrderedMap)
open Storage (PlatformType)
open TradeExecution (AccountType)
open TradingSystem (CurrencyType)

inductive TradeStatsSelection where
  | allTrades | firstMmStep | lastInGroup
  deriving DecidableEq

inductive TradeStatsBalanceMode where
  | simple | sweepLine
  deriving DecidableEq

inductive TradeStatsEquityMode where
  | syntheticProfit | recordBalance | portfolioBalance
  deriving DecidableEq

structure TradeWinrateStats where
  wins : Nat := 0
  losses : Nat := 0
  standoffs : Nat := 0
  refunds : Nat := 0
  errors : Nat := 0
  trades : Nat := 0
  /-- wins / (wins + losses), or 0 when the denominator is 0. -/
  winrate : ℚ := 0
  /-- (wins + losses + standoffs + refunds) / trades. -/
  resultRate : ℚ := 0
  deriving DecidableEq

namespace TradeWinrateStats

def add (stats : TradeWinrateStats) (record : TradeRecord ℚ) : TradeWinrateStats :=
  let stats := { stats with trades := stats.trades + 1 }
  if record.tradeState = .win then { stats with wins := stats.wins + 1 }
  else if record.tradeState = .loss then { stats with losses := stats.losses + 1 }
  else if record.tradeState = .standoff then { stats with standoffs := stats.standoffs + 1 }
  else if record.tradeState = .refund then { stats with refunds := stats.refunds + 1 }
  else if isErrorTradeState record.tradeState then { stats with errors := stats.errors + 1 }
  else stats

def «calc» (stats : TradeWinrateStats) : TradeWinrateStats :=
  let decisive := stats.wins + stats.losses
  let terminal := stats.wins + stats.losses + stats.standoffs + stats.refunds
  { stats with
    winrate := if decisive > 0 then stats.wins / decisive else 0
    resultRate := if stats.trades > 0 then terminal / stats.trades else 0 }

end TradeWinrateStats

structure TradeChartData where
  xTime : List Int := []
  yValue : List ℚ := []
  deriving DecidableEq

def TradeChartData.push (chart : TradeChartData) (ts : Int) (value : ℚ) : TradeChartData :=
  { xTime := chart.xTime ++ [ts], yValue := chart.yValue ++ [value] }

structure TradeSeriesStats where
  maxWinSeries : Nat := 0
  maxLossSeries : Nat := 0
  avgWinSeries : Nat := 0
  avgLossSeries : Nat := 0
  totalWinSeries : Nat := 0
  totalLossSeries : Nat := 0
  currentSeries : Nat := 0
  currentIsWin : Bool := false
  deriving DecidableEq

/-- The curves of the equity, and their drawdown. -/
structure EquityStats where
  maxAbsoluteDrawdown : ℚ := 0
  maxRelativeDrawdown : ℚ := 0
  maxDrawdownDate : Int := 0
  equityCurve : TradeChartData := {}
  profitCurve : TradeChartData := {}
  profitPercentCurve : TradeChartData := {}
  deriving DecidableEq

/-- The curve of the free funds, and its drawdown. -/
structure FreeFundsStats where
  maxAbsoluteDrawdownFree : ℚ := 0
  maxRelativeDrawdownFree : ℚ := 0
  maxDrawdownDateFree : Int := 0
  freeFundsCurve : TradeChartData := {}
  deriving DecidableEq

structure TradeStats extends EquityStats, FreeFundsStats where
  total : TradeWinrateStats
  buy : TradeWinrateStats
  sell : TradeWinrateStats
  bySymbol : OrderedMap String TradeWinrateStats
  bySignal : OrderedMap String TradeWinrateStats
  byPlatform : OrderedMap PlatformType TradeWinrateStats
  byCurrency : OrderedMap CurrencyType TradeWinrateStats
  byDuration : OrderedMap UInt32 TradeWinrateStats
  byMmStep : OrderedMap Int TradeWinrateStats
  bySec : Fin 86400 → TradeWinrateStats
  byMin : Fin 1440 → TradeWinrateStats
  byHour : Fin 24 → TradeWinrateStats
  byWeekday : Fin 7 → TradeWinrateStats
  byMonthDay : Fin 31 → TradeWinrateStats
  byMonth : Fin 12 → TradeWinrateStats
  bySecond : Fin 60 → TradeWinrateStats
  totalVolume : ℚ
  totalProfit : ℚ
  grossProfit : ℚ
  grossLoss : ℚ
  profitFactor : WithTop ℚ
  averageAmount : ℚ
  averageProfit : ℚ
  averageProfitPerTrade : ℚ
  maxProfitTrade : ℚ
  maxLossTrade : ℚ
  dailyProfit : TradeChartData
  hourlyProfit : TradeChartData
  series : TradeSeriesStats
  ping : OrderedMap Int TradeWinrateStats

structure TradeCurrencyConversionMatrix where
  baseCurrency : CurrencyType := .unknown
  rates : OrderedMap (CurrencyType ×ₗ CurrencyType) ℚ := .empty

namespace TradeCurrencyConversionMatrix

def convert (matrix : TradeCurrencyConversionMatrix) (value : ℚ) («from» «to» : CurrencyType) : ℚ :=
  if «from» = «to» ∨ «from» = .unknown ∨ «to» = .unknown then value
  else
    match matrix.rates.find? (toLex («from», «to»)) with
    | some direct => value * direct
    | none =>
        match matrix.rates.find? (toLex («to», «from»)) with
        | some inverse => if inverse ≠ 0 then value / inverse else value
        | none => value

def convertToBase (matrix : TradeCurrencyConversionMatrix) (value : ℚ) («from» : CurrencyType) : ℚ :=
  matrix.convert value «from» matrix.baseCurrency

end TradeCurrencyConversionMatrix

structure TradeStatsConfig (Zone : Type) where
  selection : TradeStatsSelection := .allTrades
  startBalance : ℚ := 0
  timeZone : TradeTimeZone Zone := .utc
  filter : TradeRecordFilter ℚ := {}
  includeErrors : Bool := false
  includeNonTerminal : Bool := false
  convert : Option (ℚ → CurrencyType → ℚ) := none
  convertCurrency : Option (ℚ → CurrencyType → CurrencyType → Int → ℚ) := none
  currencyMatrix : TradeCurrencyConversionMatrix := {}
  equityMode : TradeStatsEquityMode := .syntheticProfit
  balanceMode : TradeStatsBalanceMode := .sweepLine

structure TradeMetaStats where
  platforms : List PlatformType
  accounts : List AccountType
  currencies : List CurrencyType
  symbols : List String
  signals : List String
  durations : List UInt32
  hasDemo : Bool
  hasReal : Bool
  platformStats : List TradeStats
  accountStats : List TradeStats
  currencyStats : List TradeStats
  signalStats : List TradeStats
  symbolStats : List TradeStats
  durationStats : List TradeStats
  hourStats : List TradeStats
  weekdayStats : List TradeStats

end OptionX.Records
