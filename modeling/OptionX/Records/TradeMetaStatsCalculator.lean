import OptionX.Records.TradeStatsCalculator

/-!
# TradeMetaStatsCalculator

`TradeMetaStatsCalculator.hpp`. Each breakdown is a list of configurations, which differ from the given one in one list
of the filter; its statistics are those of each of them.
-/

namespace OptionX.Records

open Lib (OrderedMap OrderedSet)

namespace TradeMetaStatsCalculator

variable {Zone : Type} (shield : TimeShield Zone) (config : TradeStatsConfig Zone)

/-- The records whose values are collected. -/
def isCollected (rec : TradeRecord ℚ) : Bool :=
  matchFilter shield rec config.filter config.timeZone 0 && TradeStatsCalculator.includeState config rec

/-- The distinct values of the records that are collected, in ascending order. -/
def valuesOf {κ : Type} [LinearOrder κ] (value : TradeRecord ℚ → Option κ) (records : List (TradeRecord ℚ)) : List κ :=
  (OrderedSet.ofList ((records.filter (isCollected shield config)).filterMap value)).keys

/-- The configuration with a filter of its own. -/
def withFilter (change : TradeRecordFilter ℚ → TradeRecordFilter ℚ) : TradeStatsConfig Zone :=
  { config with filter := change config.filter }

section Values

variable (records : List (TradeRecord ℚ))

def platforms := valuesOf shield config (fun r => some r.platformType) records

def accounts := valuesOf shield config (fun r => some r.accountType) records

def currencies := valuesOf shield config (fun r => some r.currency) records

def symbols := valuesOf shield config (fun r => if r.symbol ≠ "" then some r.symbol else none) records

def signals := valuesOf shield config (fun r => if r.signalName ≠ "" then some r.signalName else none) records

def durations := valuesOf shield config (fun r => if 0 < r.duration then some r.duration else none) records

def platformConfigs : List (TradeStatsConfig Zone) :=
  (platforms shield config records).map fun pt => withFilter config fun f => { f with platforms := f.platforms.only pt }

def accountConfigs : List (TradeStatsConfig Zone) :=
  (accounts shield config records).map fun account =>
    withFilter config fun f => { f with accounts := f.accounts.only account }

def currencyConfigs : List (TradeStatsConfig Zone) :=
  (currencies shield config records).map fun ct =>
    withFilter config fun f => { f with currencies := f.currencies.only ct }

def symbolConfigs : List (TradeStatsConfig Zone) :=
  (symbols shield config records).map fun sym => withFilter config fun f => { f with symbols := f.symbols.only sym }

def signalConfigs : List (TradeStatsConfig Zone) :=
  (signals shield config records).map fun sig => withFilter config fun f => { f with signals := f.signals.only sig }

def durationConfigs : List (TradeStatsConfig Zone) :=
  (durations shield config records).map fun dur =>
    withFilter config fun f => { f with durations := f.durations.only dur }

def hourConfigs : List (TradeStatsConfig Zone) :=
  (List.range 24).map fun h => withFilter config fun f => { f with hours := f.hours.only (UInt32.ofNat h) }

def weekdayConfigs : List (TradeStatsConfig Zone) :=
  (List.range 7).map fun wd => withFilter config fun f => { f with weekdays := f.weekdays.only (UInt32.ofNat wd) }

/-- The statistics of each configuration. -/
def breakdown (configs : List (TradeStatsConfig Zone)) : List TradeStats :=
  configs.map fun cfg => TradeStatsCalculator.calc shield cfg records

def «calc» : TradeMetaStats :=
  let collected := records.filter (isCollected shield config)
  { platforms := platforms shield config records
    accounts := accounts shield config records
    currencies := currencies shield config records
    symbols := symbols shield config records
    signals := signals shield config records
    durations := durations shield config records
    hasDemo := collected.any fun r => r.accountType = .demo
    hasReal := collected.any fun r => r.accountType = .real
    platformStats := breakdown shield records (platformConfigs shield config records)
    accountStats := breakdown shield records (accountConfigs shield config records)
    currencyStats := breakdown shield records (currencyConfigs shield config records)
    symbolStats := breakdown shield records (symbolConfigs shield config records)
    signalStats := breakdown shield records (signalConfigs shield config records)
    durationStats := breakdown shield records (durationConfigs shield config records)
    hourStats := breakdown shield records (hourConfigs config)
    weekdayStats := breakdown shield records (weekdayConfigs config) }

end Values

end TradeMetaStatsCalculator

end OptionX.Records
