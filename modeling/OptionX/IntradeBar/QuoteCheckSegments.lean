import OptionX.IntradeBar.QuoteCheck

/-!
# Segments of a quote check

`request_quote_check_result` of `RequestManager.hpp` with a callback, which asks for at most half an hour of one local date
at a time. The checks of a response outside of its page, and whether a page is one to log in, are parameters. A segment
determines its query, and the answer of the server is a function of the segment.
-/

namespace OptionX.IntradeBar

open Lib (OrderedMap)

def maxIntradeQuoteCheckDays : Int := 2

def maxIntradeQuoteCheckIntervalSec : Int := 30 * 60

structure QuoteCheckResponse where
  statusCode : Int
  content : List Char

/-- What the request takes from the parser and from the utilities for responses. -/
structure QuoteCheckTools (F : Type) extends QuoteCheckLibrary F where
  validateStatus : QuoteCheckResponse → Bool
  validateDdosProtection : QuoteCheckResponse → Bool
  describeResponseError : QuoteCheckResponse → String → String
  isIntradeLoginPage : List Char → Bool

inductive QuoteCheckApiResult (F : Type) where
  | ok (value : BrokerQuoteCheck F) (statusCode : Int)
  | fail (errorMessage : String) (statusCode : Option Int)

def containsText (needle : String) (content : List Char) : Bool := (Lib.Strings.cut needle.toList content).isSome

def isIntradeQuoteCheckPage (content : List Char) : Bool :=
  containsText "name=\"symbol\"" content && containsText "name=\"date\"" content && containsText "name=\"from\"" content &&
    containsText "name=\"to\"" content

def isIntradeQuoteCheckFuturePeriodPage (content : List Char) : Bool := containsText "period has not ended yet" content

def isIntradeQuoteCheckInvalidPeriodPage (content : List Char) : Bool := containsText "must be later than" content

/-- The days of the broker's calendar. -/
def brokerDayIndex (offsetSec : Int) (timeMs : UInt64) : Int :=
  let localSec := (timeMs.toNat / 1000 : Nat) + offsetSec
  if 0 ≤ localSec then localSec / 86400 else (localSec - 86400 + 1).tdiv 86400

/-- The number of days that a request touches, and zero if it goes backwards. -/
def dayCount (request : BrokerQuoteCheckRequest) : Int :=
  let firstDay := brokerDayIndex request.brokerUtcOffsetSec request.fromTimeMs
  let lastDay := brokerDayIndex request.brokerUtcOffsetSec request.toTimeMs
  if firstDay ≤ lastDay then lastDay - firstDay + 1 else 0

variable {F : Type} (tools : QuoteCheckTools F) (request : BrokerQuoteCheckRequest)

/-- The last millisecond of the local day of a time. -/
def segmentDayEndMs (segmentFromMs : UInt64) : UInt64 :=
  let offsetSec := request.brokerUtcOffsetSec
  let localFromSec := (segmentFromMs.toNat / 1000 : Nat) + offsetSec
  let localDate := tools.toDate localFromSec
  let localDayStartSec := tools.toTimestamp localDate 0 0 0
  let nextDayStartUtcMs := tools.secToMs (localDayStartSec + 86400 - offsetSec)
  (nextDayStartUtcMs - 1).toUInt64

/-- The end of a segment: of the request, of the day or of half an hour, whichever comes first. -/
def segmentToMs (segmentFromMs : UInt64) : UInt64 :=
  let maxSegmentIntervalMs := (tools.secToMs maxIntradeQuoteCheckIntervalSec).toUInt64
  let maxSegmentToMs :=
    if segmentFromMs > maxTimeMs - maxSegmentIntervalMs then maxTimeMs else segmentFromMs + maxSegmentIntervalMs
  min request.toTimeMs (min (segmentDayEndMs tools request segmentFromMs) maxSegmentToMs)

def addObservation (observations : OrderedMap UInt64 F) (o : BrokerQuoteCheckObservation F) : OrderedMap UInt64 F :=
  observations.assign o.timeMs o.price

structure QuoteCheckState (F : Type) where
  observations : OrderedMap UInt64 F := OrderedMap.empty
  segments : List BrokerQuoteCheckRequest := []
  pending : Option BrokerQuoteCheckRequest := none
  calls : List (QuoteCheckApiResult F) := []

namespace QuoteCheckState

variable (state : QuoteCheckState F)

def finish (result : QuoteCheckApiResult F) : QuoteCheckState F :=
  { state with pending := none, calls := state.calls ++ [result] }

def runSegment (segmentFromMs : UInt64) : QuoteCheckState F :=
  let segmentRequest :=
    { request with fromTimeMs := segmentFromMs, toTimeMs := segmentToMs tools request segmentFromMs }
  { state with segments := state.segments ++ [segmentRequest], pending := some segmentRequest }

/-- Why a response is not read. -/
def refusal (response : Option QuoteCheckResponse) : Option (QuoteCheckApiResult F) :=
  match response with
  | none => some (.fail "No response received from Intrade broker quote-check." none)
  | some response =>
    let fail message := some (.fail message (some response.statusCode))
    if !tools.validateStatus response then
      fail (tools.describeResponseError response "Intrade broker quote-check HTTP response failed validation.")
    else if !tools.validateDdosProtection response then fail "DDoS protection detected during Intrade broker quote-check."
    else if tools.isIntradeLoginPage response.content then fail "Intrade broker quote-check authentication expired."
    else if isIntradeQuoteCheckFuturePeriodPage response.content then
      fail "Intrade broker quote-check period has not ended yet."
    else if isIntradeQuoteCheckInvalidPeriodPage response.content then
      fail "Intrade broker quote-check period is invalid: end time must be later than start time."
    else if trimCopy response.content ≠ [] && !containsText "partner_stat_table_left" (trimCopy response.content) &&
        !isIntradeQuoteCheckPage response.content then
      fail "Intrade broker quote-check response format was not recognized."
    else none

/-- What the callback gets after the last segment. -/
def mergedResult : BrokerQuoteCheck F :=
  let observations := state.observations.entries.map fun (timeMs, price) => ⟨timeMs, price⟩
  { symbol := normalizeSymbolName request.symbol, observations, rangeComplete := coversRange request observations }

/-- The callback of the response for a segment. -/
def onResponse (segmentRequest : BrokerQuoteCheckRequest) (response : Option QuoteCheckResponse) : QuoteCheckState F :=
  match refusal tools response with
  | some result => state.finish result
  | none =>
    let content := response.elim [] (·.content)
    let statusCode := response.map (·.statusCode)
    let segmentResult := parseQuoteCheckHtml tools.toQuoteCheckLibrary content segmentRequest
    if segmentResult.malformedRows > 0 then
      state.finish (.fail "Intrade broker quote-check response contained malformed rows." statusCode)
    else
      let state := { state with
        observations := segmentResult.observations.foldl addObservation state.observations }
      if segmentRequest.toTimeMs < request.toTimeMs then
        let segmentEndSecond := segmentRequest.toTimeMs - segmentRequest.toTimeMs % 1000
        let nextSegmentFromMs := if segmentEndSecond > maxTimeMs - 1000 then maxTimeMs else segmentEndSecond + 1000
        state.runSegment tools request nextSegmentFromMs
      else state.finish (.ok (state.mergedResult request) (statusCode.getD 0))

/-- Why a request is not admitted; the function returns whether there is no reason. -/
def rejection : Option (QuoteCheckApiResult F) :=
  if !request.valid then some (.fail "Invalid Intrade broker quote-check request." none)
  else if dayCount request = 0 ∨ dayCount request > maxIntradeQuoteCheckDays then
    some (.fail "Intrade broker quote-check request exceeds the two-day limit." none)
  else none

/-- The request up to its first segment. -/
def start : QuoteCheckState F :=
  match rejection request with
  | some result => ({} : QuoteCheckState F).finish result
  | none => ({} : QuoteCheckState F).runSegment tools request request.fromTimeMs

variable (respond : BrokerQuoteCheckRequest → Option QuoteCheckResponse)

/-- The server answers the open segment. -/
def step : QuoteCheckState F :=
  match state.pending with
  | none => state
  | some segmentRequest => state.onResponse tools request segmentRequest (respond segmentRequest)

/-- The state after so many answers. -/
def run (n : Nat) : QuoteCheckState F := (fun state => step tools request state respond)^[n] (start tools request)

end QuoteCheckState

end OptionX.IntradeBar
