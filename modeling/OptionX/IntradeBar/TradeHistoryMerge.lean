import OptionX.IntradeBar.TradeHistory

/-!
# Trade history from two sources

`merge_trade_history_csv_with_html` of `http_parsers.hpp`. What is asked of prices is a parameter.
-/

namespace OptionX.IntradeBar

/-- A record of the broker with its prices. -/
structure BrokerTradeRecord (F : Type) extends HistoryRecord F where
  openPrice : F
  closePrice : F

/-- The comparisons of prices: with zero, and with each other within `0.00001`. -/
structure PriceTests (F : Type) where
  isPositive : F → Bool
  isZero : F → Bool
  isApart : F → F → Bool

variable {F : Type} (tests : PriceTests F)

/-- `time_shield::MS_PER_5_SEC`. -/
def timeToleranceMs : Int := 5000

def approximatelyMatches (csvRecord htmlRecord : BrokerTradeRecord F) : Bool :=
  if csvRecord.symbol = "" ∨ htmlRecord.symbol = "" ∨ csvRecord.symbol ≠ htmlRecord.symbol ∨ csvRecord.openDate ≤ 0 ∨
      htmlRecord.openDate ≤ 0 ∨ |csvRecord.openDate - htmlRecord.openDate| > timeToleranceMs then false
  else !(tests.isPositive csvRecord.openPrice && tests.isPositive htmlRecord.openPrice &&
    tests.isApart csvRecord.openPrice htmlRecord.openPrice)

def recordsMatch (csvRecord htmlRecord : BrokerTradeRecord F) : Bool :=
  if csvRecord.optionId > 0 ∧ htmlRecord.optionId > 0 then csvRecord.optionId = htmlRecord.optionId
  else approximatelyMatches tests csvRecord htmlRecord

/-- The CSV record with its unset fields from the HTML record. -/
def enrichRecord (csvRecord htmlRecord : BrokerTradeRecord F) : BrokerTradeRecord F :=
  { csvRecord with
    optionId := if csvRecord.optionId = 0 then htmlRecord.optionId else csvRecord.optionId
    symbol := if csvRecord.symbol = "" then htmlRecord.symbol else csvRecord.symbol
    openPrice := if tests.isZero csvRecord.openPrice then htmlRecord.openPrice else csvRecord.openPrice
    closePrice := if tests.isZero csvRecord.closePrice then htmlRecord.closePrice else csvRecord.closePrice
    openDate := if csvRecord.openDate = 0 then htmlRecord.openDate else csvRecord.openDate
    closeDate := if csvRecord.closeDate = 0 then htmlRecord.closeDate else csvRecord.closeDate
    duration := if csvRecord.duration = 0 then htmlRecord.duration else csvRecord.duration
    optionType := if csvRecord.optionType = .unknown then htmlRecord.optionType else csvRecord.optionType
    orderType := if csvRecord.orderType = .unknown then htmlRecord.orderType else csvRecord.orderType }

/-- The loop over the HTML records with `html_used`: the first unused one that matches, which is then used. -/
def findHtmlRecord (csvRecord : BrokerTradeRecord F) :
    List (BrokerTradeRecord F) → List Bool → Option (BrokerTradeRecord F × List Bool)
  | htmlRecord :: htmlRecords, used :: htmlUsed =>
    if !used && recordsMatch tests csvRecord htmlRecord then some (htmlRecord, true :: htmlUsed)
    else (findHtmlRecord csvRecord htmlRecords htmlUsed).map fun (found, htmlUsed) => (found, used :: htmlUsed)
  | _, _ => none

def mergeLoop (htmlRecords : List (BrokerTradeRecord F)) :
    List (BrokerTradeRecord F) → List Bool → List (BrokerTradeRecord F)
  | [], _ => []
  | csvRecord :: csvRecords, htmlUsed =>
    match findHtmlRecord tests csvRecord htmlRecords htmlUsed with
    | some (htmlRecord, htmlUsed) => enrichRecord tests csvRecord htmlRecord :: mergeLoop htmlRecords csvRecords htmlUsed
    | none => mergeLoop htmlRecords csvRecords htmlUsed

def mergeTradeHistoryCsvWithHtml (csvRecords htmlRecords : List (BrokerTradeRecord F)) : List (BrokerTradeRecord F) :=
  mergeLoop tests htmlRecords csvRecords (List.replicate htmlRecords.length false)

end OptionX.IntradeBar
