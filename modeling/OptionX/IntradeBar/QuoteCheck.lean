import OptionX.IntradeBar.TradingConditionManager
import OptionX.Lib.Civil
import OptionX.Lib.Decimal
import OptionX.Lib.FixedWidth
import OptionX.Lib.OrderedMap
import OptionX.Lib.Strings

/-!
# Quote checks

`QuoteCheck.hpp`, and `parse_quote_check_html` of `http_parsers.hpp` with its timestamps. A page is the list of its
characters. The rows that the two expressions find, prices and the time library are parameters.
-/

namespace OptionX.IntradeBar

open Lib (OrderedMap)
open Lib.Civil (Date)
open Lib.Decimal (value)

/-! ## Requests -/

def intradeQuoteCheckSource : String := "INTRADE_BAR_QUOTES"

structure BrokerQuoteCheckRequest where
  symbol : String := ""
  fromTimeMs : UInt64 := 0
  toTimeMs : UInt64 := 0
  brokerUtcOffsetSec : Int := 3 * 60 * 60

def BrokerQuoteCheckRequest.valid (request : BrokerQuoteCheckRequest) : Bool :=
  request.symbol ≠ "" && request.fromTimeMs > 0 && request.toTimeMs ≥ request.fromTimeMs &&
    request.brokerUtcOffsetSec ≥ -24 * 60 * 60 && request.brokerUtcOffsetSec ≤ 24 * 60 * 60

/-- `std::numeric_limits<std::uint64_t>::max()`. -/
def maxTimeMs : UInt64 := 18446744073709551615

def firstQuoteCheckTimeMs (request : BrokerQuoteCheckRequest) : UInt64 :=
  let remainder := request.fromTimeMs % 1000
  if remainder = 0 then request.fromTimeMs
  else
    let increment := 1000 - remainder
    if request.fromTimeMs > maxTimeMs - increment then maxTimeMs else request.fromTimeMs + increment

def quoteCheckExpectedCount (request : BrokerQuoteCheckRequest) : UInt64 :=
  if !request.valid then 0
  else
    let first := firstQuoteCheckTimeMs request
    let last := request.toTimeMs - request.toTimeMs % 1000
    if first > last then 0 else (last - first) / 1000 + 1

structure BrokerQuoteCheckObservation (F : Type) where
  timeMs : UInt64
  price : F

structure BrokerQuoteCheck (F : Type) where
  symbol : String
  source : String := intradeQuoteCheckSource
  observations : List (BrokerQuoteCheckObservation F) := []
  rangeComplete : Bool := false
  malformedRows : Nat := 0

/-- What the parser takes from the regular expressions and the time library. -/
structure QuoteCheckLibrary (F : Type) where
  legacyRows : List Char → List (List (List Char))
  currentRows : List Char → List (List (List Char))
  parseDoubleStrict : List Char → Option F
  toDate : Int → Date
  toTimestamp : Date → Int → Int → Int → Int
  secToMs : Int → Int64

variable {F : Type} (library : QuoteCheckLibrary F)

/-! ## Timestamps -/

def trimCopy (text : List Char) : List Char := (text.dropWhile isSpace).rdropWhile isSpace

def parseIntStrict (text : List Char) : Option Int :=
  if text = [] ∨ text.any (!·.isDigit) ∨ value text > 2147483647 then none else some (value text)

/-- A run of characters of a kind, of a length within bounds, and what follows it. -/
def field (kind : Char → Bool) (least most : Nat) (text : List Char) : Option (List Char × List Char) :=
  let run := text.takeWhile kind
  if least ≤ run.length ∧ run.length ≤ most then some (run, text.dropWhile kind) else none

def literal (c : Char) : List Char → Option (List Char)
  | [] => none
  | d :: rest => if d = c then some rest else none

/-- `\s*([0-9]{1,2}):([0-9]{2}):([0-9]{2})`. -/
def matchTime (raw : List Char) : Option (List Char × List Char × List Char × List Char) := do
  let (hour, rest) ← field Char.isDigit 1 2 (raw.dropWhile isSpace)
  let rest ← literal ':' rest
  let (minute, rest) ← field Char.isDigit 2 2 rest
  let rest ← literal ':' rest
  let (second, rest) ← field Char.isDigit 2 2 rest
  return (hour, minute, second, rest)

/-- `\s+`. -/
def skipSpaces (text : List Char) : Option (List Char) := (field isSpace 1 text.length text).map (·.2)

/-- The groups of a time with a date. -/
structure DateTimeMatch where
  hour : List Char
  minute : List Char
  second : List Char
  day : List Char
  month : List Char
  year : List Char

/-- The end of both expressions for dates. -/
def matchYear (text : List Char) : Option (List Char) := do
  let (year, rest) ← field Char.isDigit 2 4 text
  if rest.all isSpace then some year else none

def matchNamedMonth (raw : List Char) : Option DateTimeMatch := do
  let (hour, minute, second, rest) ← matchTime raw
  let rest ← literal ',' rest
  let (day, rest) ← field Char.isDigit 1 2 (rest.dropWhile isSpace)
  let rest ← skipSpaces rest
  let (month, rest) ← field Char.isAlpha 3 3 rest
  let rest ← skipSpaces rest
  let year ← matchYear rest
  return { hour, minute, second, day, month, year }

def matchNumericMonth (raw : List Char) : Option DateTimeMatch := do
  let (hour, minute, second, rest) ← matchTime raw
  let rest ← literal ',' rest
  let (day, rest) ← field Char.isDigit 1 2 (rest.dropWhile isSpace)
  let rest ← literal '.' rest
  let (month, rest) ← field Char.isDigit 1 2 rest
  let rest ← literal '.' rest
  let year ← matchYear rest
  return { hour, minute, second, day, month, year }

def months : List String :=
  ["jan", "feb", "mar", "apr", "may", "jun", "jul", "aug", "sep", "oct", "nov", "dec"]

/-- The number of a month, or zero. -/
def historyMonthFromName (month : List Char) : Int :=
  match months.idxOf? (String.ofList ((trimCopy month).map Char.toLower)) with
  | some index => index + 1
  | none => 0

/-- What both expressions lead to. -/
def historyTimestamp (m : DateTimeMatch) (parsedMonth : Option Int) (brokerOffsetSec : Int) : Option Int64 := do
  let hour ← parseIntStrict m.hour
  let minute ← parseIntStrict m.minute
  let second ← parseIntStrict m.second
  let day ← parseIntStrict m.day
  let month ← parsedMonth
  let year ← parseIntStrict m.year
  let year := if year < 100 then year + 2000 else year
  if month < 1 ∨ month > 12 ∨ day < 1 ∨ day > 31 ∨ hour > 23 ∨ minute > 59 ∨ second > 59 then none
  else some (library.secToMs (library.toTimestamp ⟨year, month, day⟩ hour minute second - brokerOffsetSec))

def parseHistoryDatetimeMs (raw : List Char) (brokerOffsetSec : Int) : Option Int64 :=
  match matchNamedMonth raw with
  | some m => historyTimestamp library m (some (historyMonthFromName m.month)) brokerOffsetSec
  | none =>
    match matchNumericMonth raw with
    | some m => historyTimestamp library m (parseIntStrict m.month) brokerOffsetSec
    | none => none

/-- The second at which a request begins, on the broker's clock. -/
def localFromSec (request : BrokerQuoteCheckRequest) : Int :=
  (request.fromTimeMs.toNat / 1000 : Nat) + request.brokerUtcOffsetSec

/-- The whole of a cell without a date. -/
def matchTimeOnly (raw : List Char) : Option (List Char × List Char × List Char) := do
  let (hour, minute, second, rest) ← matchTime raw
  if rest.all isSpace then some (hour, minute, second) else none

def timeOnlyTimestamp (raw : List Char) (request : BrokerQuoteCheckRequest) : Option Int64 := do
  let (hour, minute, second) ← matchTimeOnly raw
  let hour ← parseIntStrict hour
  let minute ← parseIntStrict minute
  let second ← parseIntStrict second
  if hour > 23 ∨ minute > 59 ∨ second > 59 then none
  else
    let localDate := library.toDate (localFromSec request)
    some (library.secToMs (library.toTimestamp localDate hour minute second - request.brokerUtcOffsetSec))

def parseQuoteCheckDatetimeMs (raw : List Char) (request : BrokerQuoteCheckRequest) : Option Int64 :=
  match parseHistoryDatetimeMs library raw request.brokerUtcOffsetSec with
  | some fullTimestamp => some fullTimestamp
  | none => timeOnlyTimestamp library raw request

/-! ## Pages -/

/-- `"partner_stat_table_left"`. -/
def rowMarker : List Char :=
  ['p', 'a', 'r', 't', 'n', 'e', 'r', '_', 's', 't', 'a', 't', '_', 't', 'a', 'b', 'l', 'e', '_', 'l', 'e', 'f', 't']

/-- How often the marker is found, each time after the last one. -/
def markerCount (content : List Char) : Nat :=
  match _hfound : Lib.Strings.cut rowMarker content with
  | none => 0
  | some (_, rest) => markerCount (rest.drop rowMarker.length) + 1
  termination_by content.length
  decreasing_by exact Lib.Strings.length_drop_cut_lt (List.cons_ne_nil _ _) _hfound

/-- `std::replace` of commas. -/
def withPoint (text : List Char) : List Char := text.map fun c => if c = ',' then '.' else c

/-- The time and the price of a row, unless it is malformed. -/
def readRow (request : BrokerQuoteCheckRequest) : List (List Char) → Option (Int64 × F)
  | _ :: time :: _ :: price :: _ => do
    let timestamp ← parseQuoteCheckDatetimeMs library (trimCopy time) request
    let price ← library.parseDoubleStrict (withPoint (trimCopy price))
    if timestamp < 0 then none else some (timestamp, price)
  | _ => none

structure CollectedRows (F : Type) where
  rows : OrderedMap UInt64 F := OrderedMap.empty
  malformedRows : Nat := 0

def collectRow (request : BrokerQuoteCheckRequest) (collected : CollectedRows F) (row : List (List Char)) :
    CollectedRows F :=
  match readRow library request row with
  | none => { collected with malformedRows := collected.malformedRows + 1 }
  | some (timestamp, price) =>
    let timeMs := timestamp.toUInt64
    if timeMs < request.fromTimeMs ∨ timeMs > request.toTimeMs then collected
    else { collected with rows := collected.rows.assign timeMs price }

/-- The rows that a page is read from. -/
def pageRows (content : List Char) : List (List (List Char)) :=
  library.legacyRows content ++ if markerCount content = 0 then library.currentRows content else []

/-- The observations are as many as the range has whole seconds, each at its own. -/
def coversRange (request : BrokerQuoteCheckRequest) (observations : List (BrokerQuoteCheckObservation F)) : Bool :=
  observations.length = (quoteCheckExpectedCount request).toNat &&
    observations.zipIdx.all fun (o, index) => o.timeMs = firstQuoteCheckTimeMs request + UInt64.ofNat index * 1000

def parseQuoteCheckHtml (content : List Char) (request : BrokerQuoteCheckRequest) : BrokerQuoteCheck F :=
  let symbol := normalizeSymbolName request.symbol
  if !request.valid then { symbol }
  else
    let collected := (pageRows library content).foldl (collectRow library request) {}
    let malformedRows := collected.malformedRows + (markerCount content - (library.legacyRows content).length)
    let observations := collected.rows.entries.map fun (timeMs, price) => ⟨timeMs, price⟩
    { symbol, observations, malformedRows,
      rangeComplete := malformedRows = 0 && coversRange request observations }

end OptionX.IntradeBar
