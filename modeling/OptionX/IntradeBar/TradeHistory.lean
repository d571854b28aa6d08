import OptionX.Lib.Strings
import OptionX.Records.TradeRecordQuery

/-!
# Trade history from pages

`request_trade_history_html` of `RequestManager.hpp` with its helpers, and `parse_trade_history_html_page` of
`http_parsers.hpp`. What one row or one attribute says is a parameter, as is the answer of the server to a request.
-/

namespace OptionX.IntradeBar

open Lib.Strings (cut cut_eq length_drop_cut_lt)
open Records (TimeRangeMode TradeRecordTimeField)
open TradeExecution (AccountType)

abbrev Text := List UInt8

/-- A trade record with its comment. -/
structure HistoryRecord (F : Type) extends Records.TradeRecord F where
  comment : Text := []

structure TradeHistoryRequest where
  startMs : Int := 0
  stopMs : Int := 0
  timeField : TradeRecordTimeField := .closeDate
  rangeMode : TimeRangeMode := .closed
  comment : Text := []

variable {F : Type}

/-! ## Pages -/

structure TradeHistoryHtmlPage (F : Type) where
  records : List (HistoryRecord F)
  nextLast : Text

/-- What is read out of a page by attributes and regular expressions. -/
structure HtmlParsers (F : Type) where
  nextLast : Text → Option Text
  historyBlock : Text → Text
  attrRow : Text → AccountType → Except String (Option (HistoryRecord F))
  tradeCloseTableRow : Text → AccountType → Except String (Option (HistoryRecord F))

/-- `"<tr"`. -/
def rowOpen : Text := [60, 116, 114]

/-- `"</tr>"`. -/
def rowClose : Text := [60, 47, 116, 114, 62]

/-- The rows of a block, each from its `"<tr"` up to the next `"</tr>"`. -/
def historyRows (html : Text) : List Text :=
  match _hopen : cut rowOpen html with
  | none => []
  | some (_, fromRow) =>
    match _hclose : cut rowClose fromRow with
    | none => []
    | some (row, rest) => row :: historyRows (rest.drop rowClose.length)
  termination_by html.length
  decreasing_by
    obtain ⟨rfl, _⟩ := cut_eq _hopen
    have := length_drop_cut_lt (by simp [rowClose]) _hclose
    simp only [List.length_append]
    omega

/-- The records of the rows that one of the two row parsers takes. -/
def parseHistoryRows (parsers : HtmlParsers F) (accountType : AccountType) :
    List Text → Except String (List (HistoryRecord F))
  | [] => .ok []
  | row :: rows => do
    match ← parsers.attrRow row accountType with
    | some trade => return trade :: (← parseHistoryRows parsers accountType rows)
    | none =>
      match ← parsers.tradeCloseTableRow row accountType with
      | some trade => return trade :: (← parseHistoryRows parsers accountType rows)
      | none => parseHistoryRows parsers accountType rows

def parseTradeHistoryHtmlPage (parsers : HtmlParsers F) (content : Text) (accountType : AccountType) :
    Except String (TradeHistoryHtmlPage F) := do
  let nextLast := (parsers.nextLast content).getD []
  let historyHtml := parsers.historyBlock content
  if historyHtml = [] then return ⟨[], nextLast⟩
  return ⟨← parseHistoryRows parsers accountType (historyRows historyHtml), nextLast⟩

/-! ## Ranges and duplicates -/

def selectTradeHistoryTimestamp (record : HistoryRecord F) (field : TradeRecordTimeField) : Int :=
  match field with
  | .placeDate => record.placeDate
  | .sendDate => record.sendDate
  | .openDate => record.openDate
  | .closeDate => record.closeDate
  | .auto =>
      if 0 < record.placeDate then record.placeDate
      else if 0 < record.sendDate then record.sendDate
      else if 0 < record.openDate then record.openDate
      else if 0 < record.closeDate then record.closeDate
      else 0

/-- Whether `filter_trade_history_range` erases a record. -/
def outsideRange (request : TradeHistoryRequest) (record : HistoryRecord F) : Bool :=
  let timestamp := selectTradeHistoryTimestamp record request.timeField
  if timestamp ≤ 0 then true
  else if request.rangeMode = .halfOpen then timestamp < request.startMs || timestamp ≥ request.stopMs
  else timestamp < request.startMs || timestamp > request.stopMs

def filterTradeHistoryRange (records : List (HistoryRecord F)) (request : TradeHistoryRequest) :
    List (HistoryRecord F) :=
  if request.rangeMode = .none then records else records.filter fun record => !outsideRange request record

def appendUniqueTradeHistory (target source : List (HistoryRecord F)) : List (HistoryRecord F) :=
  source.foldl
    (fun target record =>
      if 0 < record.optionId && target.any (·.optionId = record.optionId) then target else target ++ [record])
    target

def tradeHistoryPageReachedStart (records : List (HistoryRecord F)) (request : TradeHistoryRequest) : Bool :=
  if request.rangeMode = .none then false
  else records.any fun record =>
    let timestamp := selectTradeHistoryTimestamp record request.timeField
    0 < timestamp && timestamp < request.startMs

def applyTradeHistoryRequestMetadata (records : List (HistoryRecord F)) (request : TradeHistoryRequest) :
    List (HistoryRecord F) :=
  if request.comment = [] then records
  else records.map fun record => if record.comment = [] then { record with comment := request.comment } else record

/-! ## The chain of requests -/

/-- The first page, or the one after a cursor. -/
inductive PageRequest where
  | home
  | loadMore (last : Text)
  deriving DecidableEq

/-- An answer that `validate_response` refuses, with its status or the one of no response, or one that it takes. -/
inductive PageResponse where
  | invalid (statusCode : Int)
  | valid (statusCode : Int) (content : Text)

inductive TradeHistoryApiResult (F : Type) where
  | ok (records : List (HistoryRecord F)) (statusCode : Int)
  | fail (message : String) (statusCode : Int)

/-- `HtmlHistoryState`, with the requests that were made, the one that is open, and the calls of the callback. -/
structure HtmlHistoryState (F : Type) where
  records : List (HistoryRecord F) := []
  requestedLastValues : List Text := []
  pageCount : Nat := 0
  completed : Bool := false
  requests : List PageRequest := [.home]
  pending : Option PageRequest := some .home
  calls : List (TradeHistoryApiResult F) := []

def maxHtmlHistoryPages : Nat := 200

def noHttpStatus : Int := 0

/-- One request of the history: its parameters, the parsers, and whether the callback throws at a result. -/
structure HtmlHistory (F : Type) where
  request : TradeHistoryRequest
  accountType : AccountType
  parsers : HtmlParsers F
  callbackThrows : TradeHistoryApiResult F → Option String

namespace HtmlHistory

variable (history : HtmlHistory F) (state : HtmlHistoryState F)

/-- The final result from the result of a page. -/
def finalResult : TradeHistoryApiResult F → TradeHistoryApiResult F
  | .fail message statusCode => .fail message statusCode
  | .ok _ statusCode =>
      .ok (applyTradeHistoryRequestMetadata (filterTradeHistoryRange state.records history.request) history.request)
        statusCode

/-- `complete`; the text is that of an exception out of the callback. -/
def complete (result : TradeHistoryApiResult F) : HtmlHistoryState F × Option String :=
  if state.completed then (state, none)
  else
    ({ state with completed := true, calls := state.calls ++ [history.finalResult state result] },
      history.callbackThrows (history.finalResult state result))

def loadMore (last : Text) : HtmlHistoryState F × Option String :=
  if last = [] || state.completed then history.complete state (.ok [] noHttpStatus)
  else
    ({ state with
        requestedLastValues := state.requestedLastValues ++ [last]
        requests := state.requests ++ [.loadMore last]
        pending := some (.loadMore last) }, none)

def processPage (page : TradeHistoryHtmlPage F) (statusCode : Int) : HtmlHistoryState F × Option String :=
  let state := { state with pageCount := state.pageCount + 1 }
  let pageHasRecords := !page.records.isEmpty
  let reachedStart := tradeHistoryPageReachedStart page.records history.request
  let state := { state with records := appendUniqueTradeHistory state.records page.records }
  let nextRepeats := page.nextLast ≠ [] && state.requestedLastValues.any (· = page.nextLast)
  if pageHasRecords && !reachedStart && page.nextLast ≠ [] && !nextRepeats && state.pageCount < maxHtmlHistoryPages then
    history.loadMore state page.nextLast
  else history.complete state (.ok [] statusCode)

/-- The texts of the two response callbacks. -/
def invalidText : PageRequest → String
  | .home => "HTML trade history HTTP response failed validation."
  | .loadMore _ => "HTML trade history load-more HTTP response failed validation."

def parseFailureText : PageRequest → String
  | .home => "Failed to parse HTML trade history: "
  | .loadMore _ => "Failed to parse HTML trade history load-more: "

/-- The callback of the open request. An exception of the parser or of the user's callback is caught, and completes. -/
def onResponse (request : PageRequest) (response : PageResponse) : HtmlHistoryState F :=
  let state := { state with pending := none }
  match response with
  | .invalid statusCode => (history.complete state (.fail (invalidText request) statusCode)).1
  | .valid statusCode content =>
    match parseTradeHistoryHtmlPage history.parsers content history.accountType with
    | .error what => (history.complete state (.fail (parseFailureText request ++ what) statusCode)).1
    | .ok page =>
      match history.processPage state page statusCode with
      | (state, none) => state
      | (state, some what) => (history.complete state (.fail (parseFailureText request ++ what) statusCode)).1

/-- The server answers the open request, if there is one. -/
def step (respond : PageRequest → PageResponse) (state : HtmlHistoryState F) : HtmlHistoryState F :=
  match state.pending with
  | none => state
  | some request => history.onResponse state request (respond request)

/-- The state after so many answers. -/
def run (respond : PageRequest → PageResponse) (n : Nat) : HtmlHistoryState F := (history.step respond)^[n] {}

end HtmlHistory

end OptionX.IntradeBar
