import OptionX.TradingView.Event

/-!
# The parser of TradingView payloads

`parse_event` of `TradingViewExtensionProtocol.hpp` with what it reads: numbers in texts, conditions and symbols.
-/

namespace OptionX.TradingView

open Lib.Machine

variable {F : Type}

/-! ## Numbers with a fraction -/

/-- `strict_number_string_to_double`, with what its output holds afterwards. -/
def strictNumberStringToDouble (lib : Library F) (value : Text) (output : F) : Bool × F :=
  let trimmed := trimCopy value
  if trimmed = [] then (false, output)
  else
    let plain := trimmed.filter (· ≠ comma)
    match lib.stod plain with
    | none => (false, output)
    | some (number, position) => (position = plain.length, number)

def isNumberChar (ch : UInt8) : Bool := isDigit ch || ch = 46 || ch = comma

/-- The loop of `extract_last_number_from_text`, after the character `previous`. -/
def lastNumberFrom (lib : Library F) (previous : Option UInt8) (found : Option F) : Text → Option F
  | [] => found
  | ch :: rest =>
      let startsNumber := isDigit ch || (isSign ch && rest.head?.any isDigit)
      if !startsNumber || previous.any isAlnum then lastNumberFrom lib (some ch) found rest
      else
        let token := ch :: rest.takeWhile isNumberChar
        let after := rest.dropWhile isNumberChar
        let found :=
          if token.any isDigit && !after.head?.any isAlnum then
            match strictNumberStringToDouble lib token lib.zero with
            | (true, number) => some number
            | (false, _) => found
          else found
        lastNumberFrom lib token.getLast? found after
  termination_by value => value.length
  decreasing_by
    · simp
    · have := (List.dropWhile_sublist isNumberChar (l := rest)).length_le
      simp only [List.length_cons]
      omega

def extractLastNumberFromText (lib : Library F) (value : Text) (output : F) : F :=
  (lastNumberFrom lib none none value).getD output

/-- `get<double>()` of a number. -/
def Json.number? (lib : Library F) : Json F → Option F
  | .integer value => some (lib.ofInt value.toInt)
  | .unsigned value => some (lib.ofInt value.toNat)
  | .float value => some value
  | _ => none

def jsonNumber (lib : Library F) (object : Json F) : List String → F
  | [] => lib.zero
  | key :: keys =>
      match object.member? (text key) with
      | none => jsonNumber lib object keys
      | some value =>
          match value.number? lib, value with
          | some number, _ => number
          | none, .string value =>
              match strictNumberStringToDouble lib value lib.zero with
              | (true, number) => number
              | (false, _) => jsonNumber lib object keys
          | none, _ => jsonNumber lib object keys

/-- `json_number_into`, with what its output holds afterwards. -/
def jsonNumberInto (lib : Library F) (object : Json F) (output : F) : List String → Bool × F
  | [] => (false, output)
  | key :: keys =>
      match object.member? (text key) with
      | none => jsonNumberInto lib object output keys
      | some value =>
          match value.number? lib, value with
          | some number, _ => (true, number)
          | none, .string value =>
              match strictNumberStringToDouble lib value output with
              | (true, number) => (true, number)
              | (false, output) => jsonNumberInto lib object output keys
          | none, _ => jsonNumberInto lib object output keys

/-! ## Conditions -/

/-- Where a text first occurs in another. -/
def findIn (part value : Text) : Option Nat :=
  value.tails.findIdx? fun rest => part.isPrefixOf rest

def normalizeConditionType (value : Text) : Text :=
  let value := (lowerCopy (trimCopy value)).map fun ch => if ch = 32 ∨ ch = 45 ∨ ch = 46 then 95 else ch
  if value = text "cross_up" ∨ value = text "crossingup" then text "crossing_up"
  else if value = text "cross_down" ∨ value = text "crossingdown" then text "crossing_down"
  else if value = text "cross" then text "crossing"
  else if value = text "up" then text "crossing_up"
  else if value = text "down" then text "crossing_down"
  else if value = text "above" then text "greater_than"
  else if value = text "below" then text "less_than"
  else value

def inferConditionTypeFromMessage (message : Text) : Text :=
  let lowered := lowerCopy message
  let mentions (part : String) : Bool := occursIn (text part) lowered
  if mentions "crossing up" || mentions "cross up" then text "crossing_up"
  else if mentions "crossing down" || mentions "cross down" then text "crossing_down"
  else if mentions "crossing" || mentions "cross " then text "crossing"
  else if mentions "greater than" || mentions "above" then text "greater_than"
  else if mentions "less than" || mentions "below" then text "less_than"
  else if mentions "moving up" then text (if mentions "%" then "moving_up_pct" else "moving_up")
  else if mentions "moving down" then text (if mentions "%" then "moving_down_pct" else "moving_down")
  else []

def isPercentTrigger (conditionType triggerUnit : Text) : Bool :=
  let condition := lowerCopy (trimCopy conditionType)
  let unit := lowerCopy (trimCopy triggerUnit)
  unit = text "percent" || unit = text "%" || (text "_pct").isSuffixOf condition

/-- The text after the first mark of a move. -/
def afterMove (value : Text) : Option Text :=
  let lowered := lowerCopy value
  match findIn (text "moving up") lowered with
  | some marker => some (value.drop (marker + 9))
  | none => (findIn (text "moving down") lowered).map fun marker => value.drop (marker + 11)

def extractPercentTriggerValueFromText (lib : Library F) (value : Text) (output : F) : Bool × F :=
  match afterMove value with
  | none => (false, output)
  | some rest =>
      let body := rest.dropWhile isSpace
      let number := body.takeWhile fun ch => isDigit ch || ch = 43 || ch = 45 || ch = 46 || ch = comma
      let percent := (body.drop number.length).dropWhile isSpace
      if number = [] ∨ percent.head? ≠ some 37 then (false, output)
      else strictNumberStringToDouble lib number output

/-! ## Symbols -/

def normalizeSymbolValue (lib : Library F) (symbol : Text) : Text :=
  match trimCopy symbol with
  | 61 :: ch :: rest =>
      match lib.parse (ch :: rest) with
      | none => 61 :: ch :: rest
      | some parsed =>
          let parsedSymbol := firstJsonString lib parsed ["symbol", "tickerid", "ticker"]
          if parsedSymbol ≠ [] then parsedSymbol else 61 :: ch :: rest
  | symbol => symbol

/-! ## The two kinds of payloads -/

/-- What the parser throws. -/
inductive ParseError where
  | runtime (message : String)
  | invalid (message : String)
  deriving DecidableEq, Repr

/-- The unit and the value of a trigger: the unit, whether there is a value, and the value. -/
def readTrigger (lib : Library F) (source : Json F) (conditionType message : Text) : Text × Bool × F :=
  let unit := firstJsonString lib source ["trigger_unit", "unit"]
  let (hasValue, value) := jsonNumberInto lib source lib.zero ["trigger_value", "alert_value"]
  let (hasValue, value) :=
    if !hasValue && isPercentTrigger conditionType unit then extractPercentTriggerValueFromText lib message value
    else (hasValue, value)
  (if unit = [] ∧ isPercentTrigger conditionType unit then text "percent" else unit, hasValue, value)

def readPrice (lib : Library F) (source : Json F) (keys : List String) (conditionType unit message : Text) : F :=
  let price := jsonNumber lib source keys
  let price :=
    if lib.equal price lib.zero && !isPercentTrigger conditionType unit then jsonNumber lib source ["alert_value"]
    else price
  if lib.equal price lib.zero && !isPercentTrigger conditionType unit then
    extractLastNumberFromText lib message price
  else price

/-- The event named by its fire, or else by its alert. -/
def eventIdOf (sourceKind fireId alertId : Text) : Text :=
  if fireId ≠ [] then sourceKind ++ text ":" ++ fireId
  else if alertId ≠ [] then sourceKind ++ text ":" ++ alertId
  else []

def orElse (value : Text) (other : Text) : Text := if value = [] then other else value

/-- The member of a key, if it is an object. -/
def Json.objectMember? (value : Json F) (key : String) : Option (Json F) :=
  (value.member? (text key)).filter Json.isObject

def parsePricealertsPrivateFeed (lib : Library F) (payload : Json F) :
    Exact (Except ParseError (NormalizedEvent F)) :=
  let feed := (payload.member? (text "text")).getD .null
  let channel := jsonString lib feed "channel"
  let content := (feed.member? (text "content")).getD .null
  let method := jsonString lib content "m"
  if channel ≠ text "pricealerts" then .ok (.error (.invalid "Unsupported TradingView private feed channel."))
  else if method ≠ text "alert_fired" then
    .ok (.error (.runtime "TradingView price alert state message ignored."))
  else
    match content.objectMember? "p" with
    | none => .ok (.error (.invalid "TradingView alert_fired message does not contain object p."))
    | some data => do
        let sourceKind := text "private_pricealerts_ws"
        let fireId := jsonString lib data "fire_id"
        let alertId := orElse (firstJsonString lib data ["alert_id", "id"]) fireId
        let symbol := normalizeSymbolValue lib
          (firstJsonString lib data ["symbol", "tickerid", "ticker", "main_symbol"])
        let message := orElse (firstJsonString lib data ["message", "description", "title"])
          (firstJsonString lib payload ["message", "description", "title"])
        let stated := orElse (normalizeConditionType (firstJsonString lib payload ["condition_type", "condition"]))
          (normalizeConditionType (firstJsonString lib data ["condition_type", "condition", "type"]))
        let conditionType := orElse stated (inferConditionTypeFromMessage message)
        let (triggerUnit, hasTriggerValue, triggerValue) := readTrigger lib data conditionType message
        let time ← jsonInteger lib data 0 ["time", "timestamp", "fire_time", "fired_at", "update_time"]
        return .ok
          { sourceKind
            isLevelAlert := true
            raw := payload
            method
            action := jsonString lib payload "action"
            conditionType
            fireId
            alertId
            eventId := orElse (firstJsonString lib payload ["event_id", "dedupe_key"])
              (eventIdOf sourceKind fireId alertId)
            dedupeKey := jsonString lib payload "dedupe_key"
            fingerprint := jsonString lib payload "fingerprint"
            originalSymbol := symbol
            symbol
            signalName := firstJsonString lib data ["signal_name", "name", "alert_name"]
            alertName := firstJsonString lib data ["alert_name", "name", "title"]
            message
            triggerUnit
            hasTriggerValue
            triggerValue
            price := readPrice lib data ["price", "trigger_price", "cross_price"] conditionType triggerUnit message
            time }

/-- The event named by the life of its signal. -/
def lifecycleEventId (lifecycleId state : Text) (revision : Int) : Text :=
  lifecycleId ++ (if state ≠ [] then text ":" ++ state else []) ++
    (if 0 < revision then text ":" ++ text (toString revision) else [])

/-! What the payload leaves out is read from another of its objects: a number that is zero, a text that is empty. -/

def orInteger (lib : Library F) (value : Int) (source : Option (Json F)) (keys : List String) : Exact Int :=
  match source with
  | some source => if value = 0 then jsonInteger lib source 0 keys else .ok value
  | none => .ok value

def orNumber (lib : Library F) (value : F) (source : Option (Json F)) (keys : List String) : F :=
  match source with
  | some source => if lib.equal value lib.zero then jsonNumber lib source keys else value
  | none => value

def orString (lib : Library F) (value : Text) (source : Option (Json F)) (keys : List String) : Text :=
  match source with
  | some source => orElse value (firstJsonString lib source keys)
  | none => value

def parseNormalizedExtensionPayload (lib : Library F) (payload : Json F) : Exact (NormalizedEvent F) := do
  let sourceKind := orElse (firstJsonString lib payload ["source_kind", "source", "origin"])
    (text "tradingview_extension")
  let method := firstJsonString lib payload ["method", "message_type", "event_type"]
  let fireId := jsonString lib payload "fire_id"
  let alertId := orElse (firstJsonString lib payload ["alert_id", "id"]) fireId
  let stated := firstJsonString lib payload ["event_id", "dedupe_key"]
  let symbol := normalizeSymbolValue lib
    (firstJsonString lib payload ["symbol", "tickerid", "ticker", "main_symbol"])
  let action := firstJsonString lib payload ["action", "side", "direction"]
  let signalState := firstJsonString lib payload ["state", "signal_state", "lifecycle_state"]
  let signalLifecycleId := firstJsonString lib payload ["signal_id", "lifecycle_id"]
  let signalRevision ← jsonInteger lib payload 0 ["revision", "signal_revision"]
  let message := firstJsonString lib payload ["message", "description", "text", "title"]
  let timeframe := firstJsonString lib payload ["timeframe", "interval", "resolution"]
  let timeframeSeconds ← jsonInteger lib payload 0
    ["timeframe_seconds", "interval_seconds", "bar_duration_seconds"]
  let conditionType := orElse
    (normalizeConditionType
      (firstJsonString lib payload ["condition_type", "condition", "crossing_type", "direction"]))
    (inferConditionTypeFromMessage message)
  let (triggerUnit, hasTriggerValue, triggerValue) := readTrigger lib payload conditionType message
  let price := readPrice lib payload ["price", "close", "trigger_price"] conditionType triggerUnit message
  let time ← jsonInteger lib payload 0 ["time", "timestamp", "bar_time", "fire_time"]
  let barTime ← jsonInteger lib payload 0 ["bar_time", "barTime"]
  let updateTime ← jsonInteger lib payload 0 ["update_time", "updateTime"]
  let bar := payload.objectMember? "barInfo"
  let price := orNumber lib price bar ["close"]
  let time ← orInteger lib time bar ["time", "updateTime"]
  let barTime ← orInteger lib barTime bar ["time"]
  let updateTime ← orInteger lib updateTime bar ["updateTime"]
  let extension := payload.objectMember? "extension"
  let timeframe := orString lib timeframe extension ["interval", "timeframe", "resolution"]
  let timeframeSeconds ← orInteger lib timeframeSeconds extension
    ["timeframe_seconds", "interval_seconds", "bar_duration_seconds"]
  let eventId :=
    if stated = [] ∧ signalLifecycleId ≠ [] then lifecycleEventId signalLifecycleId signalState signalRevision
    else orElse stated (eventIdOf sourceKind fireId alertId)
  let kind := lowerCopy sourceKind
  return {
    raw := payload
    sourceKind
    method
    fireId
    alertId
    eventId
    dedupeKey := jsonString lib payload "dedupe_key"
    fingerprint := jsonString lib payload "fingerprint"
    originalSymbol := symbol
    symbol
    action
    conditionType
    signalState
    signalLifecycleId
    signalRevision
    signalName := firstJsonString lib payload ["signal_name", "strategy", "name"]
    alertName := firstJsonString lib payload ["alert_name", "alert_title"]
    message
    barState := firstJsonString lib payload ["bar_state", "bar_status", "study_bar_state"]
    barStateSource := firstJsonString lib payload ["bar_state_source", "bar_status_source"]
    timeframe
    timeframeSeconds
    triggerUnit
    hasTriggerValue
    triggerValue
    price
    time
    barTime
    updateTime
    isLevelAlert := occursIn (text "level") kind || occursIn (text "pricealert") kind ||
      method = text "alert_fired" || lowerCopy action = text "alert" }

def effectivePayload (payload : Json F) : Json F := (payload.objectMember? "payload").getD payload

def parseEvent (lib : Library F) (payload : Json F) : Exact (Except ParseError (NormalizedEvent F)) :=
  let effective := effectivePayload payload
  match effective.objectMember? "text" with
  | some feed =>
      if feed.contains (text "content") then parsePricealertsPrivateFeed lib effective
      else Except.ok <$> parseNormalizedExtensionPayload lib effective
  | none => Except.ok <$> parseNormalizedExtensionPayload lib effective

end OptionX.TradingView
