import OptionX.Records.TradeRecord
import OptionX.Records.TradeTimeZone

/-!
# Filters on trade records

`TradeRecordFilter.hpp` and `TradeRecordFilterMatcher::match_filter`.
-/

namespace OptionX.Records

open Storage (PlatformType)
open TradeExecution (AccountType OptionType OrderType TradeErrorCode TradeState)
open TradingSystem (CurrencyType)

structure IncludeExcludeFilter (T : Type) where
  «include» : List T := []
  exclude : List T := []

namespace IncludeExcludeFilter

variable {T : Type} [DecidableEq T]

/-- `match`. -/
def accepts (filter : IncludeExcludeFilter T) (value : T) : Bool :=
  (filter.include.isEmpty || filter.include.contains value) && (filter.exclude.isEmpty || !filter.exclude.contains value)

/-- `include.clear()` and `add_include` of one value. -/
def only (filter : IncludeExcludeFilter T) (value : T) : IncludeExcludeFilter T := { filter with «include» := [value] }

omit [DecidableEq T] in
def isEmpty (filter : IncludeExcludeFilter T) : Bool := filter.include.isEmpty && filter.exclude.isEmpty

end IncludeExcludeFilter

structure TradeRecordFilter (F : Type) where
  platforms : IncludeExcludeFilter PlatformType := {}
  accounts : IncludeExcludeFilter AccountType := {}
  currencies : IncludeExcludeFilter CurrencyType := {}
  optionTypes : IncludeExcludeFilter OptionType := {}
  orderTypes : IncludeExcludeFilter OrderType := {}
  tradeStates : IncludeExcludeFilter TradeState := {}
  errorCodes : IncludeExcludeFilter TradeErrorCode := {}
  symbols : IncludeExcludeFilter String := {}
  signals : IncludeExcludeFilter String := {}
  userData : IncludeExcludeFilter String := {}
  mmGroupNames : IncludeExcludeFilter String := {}
  accountIds : IncludeExcludeFilter Int := {}
  optionIds : IncludeExcludeFilter Int := {}
  tradeIds : IncludeExcludeFilter UInt32 := {}
  signalIds : IncludeExcludeFilter UInt32 := {}
  uniqueIds : IncludeExcludeFilter Int := {}
  durations : IncludeExcludeFilter UInt32 := {}
  mmSteps : IncludeExcludeFilter Int := {}
  hours : IncludeExcludeFilter UInt32 := {}
  weekdays : IncludeExcludeFilter UInt32 := {}
  monthDays : IncludeExcludeFilter UInt32 := {}
  months : IncludeExcludeFilter UInt32 := {}
  startSecondOfDay : Int := 0
  stopSecondOfDay : Int := 0
  useSecondOfDay : Bool := false
  minAmount : Option F := none
  maxAmount : Option F := none
  minPayout : Option F := none
  maxPayout : Option F := none
  minProfit : Option F := none
  maxProfit : Option F := none
  minBalance : Option F := none
  maxBalance : Option F := none
  minPing : Option Int := none
  maxPing : Option Int := none
  minDelay : Option Int := none
  maxDelay : Option Int := none
  onlyTerminal : Bool := false
  onlyNonTerminal : Bool := false
  onlyFirstMmStep : Bool := false

/-- A range of seconds of the day, which may cross midnight. -/
def matchSecondOfDay (second start stop : Int) : Bool :=
  if start = stop then true
  else if start < stop then start ≤ second && second ≤ stop
  else start ≤ second || second ≤ stop

/-- The bounds that are set. -/
def withinBounds {V : Type} [LT V] [DecidableLT V] (lower upper : Option V) (value : V) : Bool :=
  (lower.all fun bound => !decide (value < bound)) && (upper.all fun bound => !decide (bound < value))

variable {F Zone : Type}

/-- A component of the local time, unless nothing is asked of it. -/
def matchComponent (filter : IncludeExcludeFilter UInt32) (component : Int) : Bool :=
  filter.isEmpty || filter.accepts (UInt32.ofInt component)

/-- The local-time components of a timestamp. -/
def matchLocalTime (shield : TimeShield Zone) (filter : TradeRecordFilter F) (timeZone : TradeTimeZone Zone)
    (selectedMs : Int) : Bool :=
  let dt := timeZone.localDateTime shield selectedMs
  matchComponent filter.hours dt.hour && matchComponent filter.weekdays (timeZone.localWeekday shield selectedMs) &&
  matchComponent filter.monthDays dt.day && matchComponent filter.months dt.mon &&
  (!filter.useSecondOfDay || matchSecondOfDay (dt.hour * 3600 + dt.min * 60 + dt.sec) filter.startSecondOfDay
    filter.stopSecondOfDay)

/-- The timestamp that the local-time checks use: a record without it is not asked for its local time. -/
def TradeRecord.localTimestampMs (record : TradeRecord F) (selectedMs : Int) : Int :=
  if selectedMs = 0 then record.selectedTimestampMs else selectedMs

variable [LT F] [DecidableLT F]

/-- The checks that read no clock. -/
def matchFields (record : TradeRecord F) (filter : TradeRecordFilter F) : Bool :=
  filter.platforms.accepts record.platformType && filter.accounts.accepts record.accountType &&
  filter.currencies.accepts record.currency && filter.optionTypes.accepts record.optionType &&
  filter.orderTypes.accepts record.orderType && filter.tradeStates.accepts record.tradeState &&
  filter.errorCodes.accepts record.errorCode && filter.symbols.accepts record.symbol &&
  filter.signals.accepts record.signalName && filter.userData.accepts record.userData &&
  filter.mmGroupNames.accepts record.mmGroupName && filter.accountIds.accepts record.accountId &&
  filter.optionIds.accepts record.optionId && filter.tradeIds.accepts record.tradeId &&
  filter.signalIds.accepts record.signalId && filter.uniqueIds.accepts record.uniqueId &&
  filter.durations.accepts record.duration && filter.mmSteps.accepts record.mmStep &&
  !(filter.onlyTerminal && !isTerminalTradeState record.tradeState) &&
  !(filter.onlyNonTerminal && isTerminalTradeState record.tradeState) &&
  !(filter.onlyFirstMmStep && record.mmStep != 0) &&
  withinBounds filter.minAmount filter.maxAmount record.amount &&
  withinBounds filter.minPayout filter.maxPayout record.payout &&
  withinBounds filter.minProfit filter.maxProfit record.profit &&
  withinBounds filter.minBalance filter.maxBalance record.closeBalance &&
  withinBounds filter.minPing filter.maxPing record.ping && withinBounds filter.minDelay filter.maxDelay record.delay

def matchFilter (shield : TimeShield Zone) (record : TradeRecord F) (filter : TradeRecordFilter F)
    (timeZone : TradeTimeZone Zone) (selectedMs : Int) : Bool :=
  matchFields record filter &&
    (!decide (0 < record.localTimestampMs selectedMs) ||
      matchLocalTime shield filter timeZone (record.localTimestampMs selectedMs))

end OptionX.Records
