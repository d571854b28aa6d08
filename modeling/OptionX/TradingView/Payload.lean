import OptionX.TradingView.EventParser
import OptionX.TradingView.StudyAlert

/-!
# From a payload to a signal

`parse_extension_payload` of `TradingViewExtensionProtocol.hpp`: redaction, authorisation, the rules of a configuration,
and the signal.
-/

namespace OptionX.TradingView

open Lib.Machine
open TradeExecution (OptionType)

variable {F : Type}

/-! ## Secrets -/

def payloadSecret (lib : Library F) (payload : Json F) : Text :=
  let secret := jsonString lib payload "secret"
  if secret ≠ [] then secret
  else
    match payload.member? (text "auth") with
    | some auth => jsonString lib auth "secret"
    | none => []

/-- The accumulator after all bytes, the shorter text padded with zeros. -/
def accumulateDiff (left right : Text) : Nat → UInt8 → UInt8
  | 0, diff => diff
  | index + 1, diff =>
      let diff := accumulateDiff left right index diff
      diff ||| (left.getD index 0 ^^^ right.getD index 0)

def constantTimeEquals (left right : Text) : Bool :=
  let maxSize := max left.length right.length
  accumulateDiff left right maxSize (UInt8.ofNat (left.length ^^^ right.length)) = 0

def isSecretKey (key : Text) : Bool :=
  let key := lowerCopy key
  key = text "secret" || key = text "authorization" || occursIn (text "secret") key

mutual
def redactPayloadSecrets : Json F → Json F
  | .object members => .object (redactMembers members)
  | .array items => .array (redactItems items)
  | value => value

def redactMembers : List (Text × Json F) → List (Text × Json F)
  | [] => []
  | (key, value) :: members =>
      (key, if isSecretKey key then .string (text "[redacted]") else redactPayloadSecrets value) ::
        redactMembers members

def redactItems : List (Json F) → List (Json F)
  | [] => []
  | item :: items => redactPayloadSecrets item :: redactItems items
end

/-! ## Actions -/

def orderTypeFromAction (action : Text) : TradeExecution.OrderType :=
  let normalized := lowerCopy (trimCopy action)
  if normalized = text "buy" then .buy else if normalized = text "sell" then .sell else .unknown

def defaultBuyActionKeywords : List Text :=
  [text "buy", text "call", text "long", text "бай", text "купить", text "покуп", text "лонг"]

def defaultSellActionKeywords : List Text :=
  [text "sell", text "put", text "short", text "селл", text "продать", text "прода", text "шорт"]

def effectiveKeywords (useDefaults : Bool) (defaults own : List Text) : List Text :=
  (if useDefaults then defaults else []) ++ own

def effectiveBuyActionKeywords (config : TradingViewExtensionBridgeConfig F) : List Text :=
  effectiveKeywords config.useDefaultActionKeywords defaultBuyActionKeywords config.buyActionKeywords

def effectiveSellActionKeywords (config : TradingViewExtensionBridgeConfig F) : List Text :=
  effectiveKeywords config.useDefaultActionKeywords defaultSellActionKeywords config.sellActionKeywords

def isAsciiWordChar (ch : UInt8) : Bool := isAlnum ch || ch = 95

def isAsciiText (value : Text) : Bool := value.all fun ch => ch < 128

/-- A keyword occurs in the text, an ASCII keyword as a whole word. -/
def foldedTextContainsKeyword (lib : Library F) (foldedText keyword : Text) : Bool :=
  let foldedKeyword := lib.unicodeCaseFold (trimCopy keyword)
  if foldedKeyword = [] then false
  else
    (List.range (foldedText.length + 1)).any fun position =>
      foldedKeyword.isPrefixOf (foldedText.drop position) &&
        (!isAsciiText foldedKeyword ||
          (!((foldedText.take position).getLast?.any isAsciiWordChar) &&
            !((foldedText.drop (position + foldedKeyword.length)).head?.any isAsciiWordChar)))

def containsAnyActionKeyword (lib : Library F) (value : Text) (keywords : List Text) : Bool :=
  keywords.any (foldedTextContainsKeyword lib (lib.unicodeCaseFold value))

def orderTypeFromActionKeywords (lib : Library F) (config : TradingViewExtensionBridgeConfig F)
    (event : NormalizedEvent F) : TradeExecution.OrderType :=
  let spaced (part : Text) : Text := if part ≠ [] then text " " ++ part else []
  let value := event.message ++ spaced event.signalName ++ spaced event.alertName ++ spaced event.action
  let hasBuy := containsAnyActionKeyword lib value (effectiveBuyActionKeywords config)
  let hasSell := containsAnyActionKeyword lib value (effectiveSellActionKeywords config)
  if hasBuy && !hasSell then .buy else if hasSell && !hasBuy then .sell else .unknown

def applySymbolMap (lib : Library F) (config : TradingViewExtensionBridgeConfig F) (symbol : Text) : Text :=
  let normalized := normalizeSymbolValue lib symbol
  match config.symbolMap normalized with
  | some mapped => trimCopy mapped
  | none =>
      match normalized.dropWhile (· ≠ 58) with
      | _ :: ch :: suffix =>
          match config.symbolMap (ch :: suffix) with
          | some mapped => trimCopy mapped
          | none => normalized
      | _ => normalized

def makeEventKey (event : NormalizedEvent F) : Text :=
  if event.dedupeKey ≠ [] then event.dedupeKey
  else if event.eventId ≠ [] then event.eventId
  else if event.fingerprint ≠ [] then event.fingerprint
  else if event.fireId ≠ [] then event.sourceKind ++ text ":fire:" ++ event.fireId
  else if event.alertId ≠ [] ∧ event.method ≠ [] then
    event.sourceKind ++ text ":" ++ event.method ++ text ":" ++ event.alertId
  else
    event.sourceKind ++ text ":" ++ event.symbol ++ text ":" ++ lowerCopy event.action ++ text ":" ++
      event.conditionType ++ text ":" ++ text (toString event.time) ++ text ":" ++ event.message

def matchesRule (lib : Library F) (rule : TradingViewLevelAlertRule) (event : NormalizedEvent F) : Bool :=
  (rule.alertId = [] || rule.alertId = event.alertId || rule.alertId = event.fireId) &&
    (rule.symbol = [] || normalizeSymbolValue lib rule.symbol = event.originalSymbol ||
      normalizeSymbolValue lib rule.symbol = event.symbol) &&
    (rule.conditionType = [] || normalizeConditionType rule.conditionType = event.conditionType) &&
    (rule.messageEquals = [] || rule.messageEquals = event.message) &&
    (rule.messageContains = [] || occursIn rule.messageContains event.message)

def findLevelRule (lib : Library F) (config : TradingViewExtensionBridgeConfig F) (event : NormalizedEvent F) :
    Option TradingViewLevelAlertRule :=
  config.levelAlertRules.find? fun rule => matchesRule lib rule event

/-! ## Replies -/

def Json.ofInt (value : Int) : Json F := .integer (Int64.ofInt value)

def normalizedEventToJson (event : NormalizedEvent F) : Json F :=
  .object
    [(text "source_kind", .string event.sourceKind), (text "method", .string event.method),
      (text "fire_id", .string event.fireId), (text "alert_id", .string event.alertId),
      (text "event_id", .string event.eventId), (text "dedupe_key", .string event.dedupeKey),
      (text "fingerprint", .string event.fingerprint), (text "symbol", .string event.symbol),
      (text "original_symbol", .string event.originalSymbol), (text "action", .string event.action),
      (text "condition_type", .string event.conditionType), (text "signal_state", .string event.signalState),
      (text "signal_id", .string event.signalLifecycleId), (text "revision", .ofInt event.signalRevision),
      (text "signal_name", .string event.signalName), (text "alert_name", .string event.alertName),
      (text "message", .string event.message), (text "bar_state", .string event.barState),
      (text "bar_state_source", .string event.barStateSource), (text "timeframe", .string event.timeframe),
      (text "price", .float event.price),
      (text "trigger_value", if event.hasTriggerValue then .float event.triggerValue else .null),
      (text "trigger_unit", .string event.triggerUnit), (text "time", .ofInt event.time),
      (text "bar_time", .ofInt event.barTime), (text "update_time", .ofInt event.updateTime),
      (text "timeframe_seconds", .ofInt event.timeframeSeconds),
      (text "is_level_alert", .boolean event.isLevelAlert)]

/-- The reply, with the message of an exception where there is one. -/
def makeResponse (accepted : Bool) (reason : String) (eventId dedupeKey : Text) (message : Option String := none) :
    Json F :=
  .object ([(text "ok", .boolean accepted), (text "accepted", .boolean accepted),
    (text "reason", .string (text reason)), (text "event_id", .string eventId),
    (text "dedupe_key", .string dedupeKey)] ++
    (message.map fun message => (text "message", Json.string (text message))).toList)

/-! ## The signal -/

inductive MmSystemType where
  | none | fixed | percent
  deriving DecidableEq, Repr

structure TradeSignal (F : Type) where
  bridgeId : Nat
  uniqueId : Int
  uniqueHash : Text
  symbol : Text
  signalName : Text
  comment : Text
  optionType : OptionType
  orderType : TradeExecution.OrderType
  amount : F
  refund : F
  minPayout : F
  duration : Nat
  expiryTime : Int := 0
  mmType : MmSystemType
  userData : Text

/-- `std::stoll` of a text that starts with a number; zero where it throws. -/
def stollPrefix (value : Text) : Int :=
  let body := value.dropWhile isSpace
  let digits := (afterSign body).takeWhile isDigit
  if digits = [] then 0 else (stoll (body.take (body.length - (afterSign body).length) ++ digits)).getD 0

def uniqueIdFromEventIds (fireId alertId : Text) : Int := stollPrefix (orElse fireId alertId)

def sizingMetadata (config : TradingViewExtensionBridgeConfig F) : Json F :=
  .object
    [(text "mode", .string config.sizingMode), (text "fixed_amount", .float config.fixedAmount),
      (text "balance_percent", .float config.balancePercent), (text "min_amount", .float config.minAmount),
      (text "max_amount", .float config.maxAmount)]

/-- `apply_sizing`: the amount and the system of a signal. -/
def sizing (lib : Library F) (config : TradingViewExtensionBridgeConfig F) : F × MmSystemType :=
  let mode := lowerCopy (trimCopy config.sizingMode)
  if mode = text "fixed_amount" then (config.fixedAmount, .fixed)
  else (lib.zero, if mode = text "balance_percent" then .percent else .none)

def orderTypeText : TradeExecution.OrderType → Text
  | .buy => text "Buy"
  | .sell => text "Sell"
  | .unknown => text "Unknown"

def buildSignal (lib : Library F) (config : TradingViewExtensionBridgeConfig F) (event : NormalizedEvent F)
    (orderType : TradeExecution.OrderType) (signalName : Text) : TradeSignal F :=
  let uniqueHash := makeEventKey event
  let userData : Json F := .object
    [(text "source", .string (text "tradingview")), (text "source_kind", .string event.sourceKind),
      (text "method", .string event.method), (text "event_id", .string event.eventId),
      (text "dedupe_key", .string uniqueHash), (text "fingerprint", .string event.fingerprint),
      (text "fire_id", .string event.fireId), (text "alert_id", .string event.alertId),
      (text "alert_name", .string event.alertName), (text "original_symbol", .string event.originalSymbol),
      (text "normalized_symbol", .string event.symbol), (text "condition_type", .string event.conditionType),
      (text "signal_state", .string event.signalState), (text "signal_id", .string event.signalLifecycleId),
      (text "revision", .ofInt event.signalRevision), (text "bar_state", .string event.barState),
      (text "bar_state_source", .string event.barStateSource), (text "timeframe", .string event.timeframe),
      (text "action", .string (orderTypeText orderType)), (text "price", .float event.price),
      (text "trigger_value", if event.hasTriggerValue then .float event.triggerValue else .null),
      (text "trigger_unit", .string event.triggerUnit), (text "time", .ofInt event.time),
      (text "bar_time", .ofInt event.barTime), (text "update_time", .ofInt event.updateTime),
      (text "timeframe_seconds", .ofInt event.timeframeSeconds), (text "sizing", sizingMetadata config)]
  { bridgeId := config.bridgeId
    uniqueId := uniqueIdFromEventIds event.fireId event.alertId
    uniqueHash
    symbol := if event.symbol = [] then applySymbolMap lib config event.originalSymbol else event.symbol
    signalName := orElse (orElse (orElse signalName event.signalName) event.alertName)
      (text (if event.isLevelAlert then "tradingview_level_alert" else "tradingview_signal"))
    comment := event.message
    optionType := config.optionType
    orderType
    amount := (sizing lib config).1
    refund := lib.zero
    minPayout := config.minPayout
    duration := config.duration
    mmType := (sizing lib config).2
    userData := lib.dump userData }

/-- What `validate_trade_signal_ratio` throws. -/
def ratioRefusal (lib : Library F) (value : F) (fieldName : String) : Option String :=
  if !lib.isFinite value then some (fieldName ++ " must be finite.")
  else if lib.less value lib.zero || lib.less lib.one value then some (fieldName ++ " must be in the 0..1 range.")
  else none

/-- What `validate_executable_trade_signal` throws. -/
def signalRefusal (lib : Library F) (signal : TradeSignal F) (context : String) (requirePositiveAmount : Bool) :
    Option String :=
  if trimCopy signal.symbol = [] then some (context ++ " symbol is required.")
  else if signal.orderType = .unknown then some (context ++ " order_type must be BUY or SELL.")
  else if signal.optionType = .unknown then some (context ++ " option_type must be SPRINT or CLASSIC.")
  else if !lib.isFinite signal.amount || lib.less signal.amount lib.zero then
    some (context ++ " amount must be finite and non-negative.")
  else if requirePositiveAmount && lib.equal signal.amount lib.zero then
    some (context ++ " amount must be positive.")
  else
    (ratioRefusal lib signal.refund "refund").or <| (ratioRefusal lib signal.minPayout "min_payout").or <|
      if signal.expiryTime < 0 then some (context ++ " expiry_time must not be negative.")
      else if (signal.duration ≠ 0 ↔ 0 < signal.expiryTime) then
        some (context ++ " requires exactly one expiry representation.")
      else none

/-! ## The payload -/

structure TradingViewParseResult (F : Type) where
  accepted : Bool := false
  authorized : Bool := true
  reason : String := ""
  eventId : Text := []
  dedupeKey : Text := []
  response : Json F := .null
  rawPayload : Json F := .null
  parsedPayload : Json F := .null
  signal : Option (TradeSignal F) := none

def isChartStudyAlert (event : NormalizedEvent F) : Bool :=
  lowerCopy event.sourceKind = text "private_chart_study_alert_messages"

def isLifecycleCancel (event : NormalizedEvent F) : Bool :=
  let state := lowerCopy (trimCopy event.signalState)
  state = text "cancel" || state = text "cancelled" || state = text "canceled"

def isConfirmedStudyAlert (event : NormalizedEvent F) : Bool :=
  let barState := lowerCopy (trimCopy event.barState)
  lowerCopy (trimCopy event.signalState) = text "confirmed" || barState = text "hist_confirmed" ||
    barState = text "rt_confirmed"

/-- What the code reads of the wall clock, in the order of the readings. -/
structure ClockReadings where
  staleReference : Int
  staleNow : Int
  closeReference : Int

/-- Why a study alert is refused. -/
def studyAlertRefusal (config : TradingViewExtensionBridgeConfig F) (event : NormalizedEvent F)
    (clock : ClockReadings) : Exact (Option String) := do
  let studyMode := lowerCopy (trimCopy config.studyAlertMode)
  if ← isStaleStudyAlert config event clock.staleReference clock.staleNow then return some "stale_study_alert"
  if isLifecycleCancel event then return some "signal_lifecycle_cancel"
  if studyMode = text "confirmed_only" ∧ !isConfirmedStudyAlert event then return some "unconfirmed_study_alert"
  if studyMode = text "close_window" then
    if !(← isWithinCloseWindow config event clock.closeReference) then return some "outside_close_window"
  return none

/-- The direction and the name of the signal, or why a level alert is refused. -/
def resolveOrder (lib : Library F) (config : TradingViewExtensionBridgeConfig F) (event : NormalizedEvent F) :
    Except String (TradeExecution.OrderType × Text) :=
  let stated := orderTypeFromAction event.action
  let keyword := if stated = .unknown then orderTypeFromActionKeywords lib config event else .unknown
  let level : Except String (TradeExecution.OrderType × Text) :=
    if stated = .unknown ∧ event.isLevelAlert then
      match findLevelRule lib config event with
      | some rule =>
          let action := lowerCopy (trimCopy rule.action)
          if action = text "reject" ∨ action = text "ignore" then .error "level_alert_rejected_by_rule"
          else .ok (orderTypeFromAction action, if rule.signalName ≠ [] then rule.signalName else event.signalName)
      | none =>
          if keyword ≠ .unknown then .ok (keyword, event.signalName)
          else
            let action := lowerCopy (trimCopy config.defaultLevelAction)
            if action = text "reject" ∨ action = text "ignore" then .error "unmapped_level_alert"
            else .ok (orderTypeFromAction action, event.signalName)
    else .ok (stated, event.signalName)
  level.map fun (orderType, signalName) =>
    (if orderType = .unknown ∧ keyword ≠ .unknown then keyword else orderType, signalName)

/-- What comes after the event is parsed and keyed. -/
def finishPayload (lib : Library F) (config : TradingViewExtensionBridgeConfig F) (clock : ClockReadings)
    (result : TradingViewParseResult F) (event : NormalizedEvent F) : Exact (TradingViewParseResult F) := do
  let refused (reason : String) (message : Option String := none) : TradingViewParseResult F :=
    { result with reason, response := makeResponse false reason result.eventId result.dedupeKey message }
  if isChartStudyAlert event then
    if let some reason ← studyAlertRefusal config event clock then return refused reason
  match resolveOrder lib config event with
  | .error reason => return refused reason
  | .ok (orderType, signalName) =>
      if orderType = .unknown then return refused "unsupported_action"
      if event.symbol = [] then return refused "missing_symbol"
      let signal := buildSignal lib config event orderType signalName
      match signalRefusal lib signal "TradingView extension signal" (signal.mmType = .fixed) with
      | some message => return refused "invalid_trade_signal" (some message)
      | none =>
          return { result with
            signal := some signal
            accepted := true
            reason := "accepted"
            response := makeResponse true "accepted" result.eventId result.dedupeKey }

/-- The secret that the request is judged by. -/
def effectiveSecret (lib : Library F) (config : TradingViewExtensionBridgeConfig F) (requestSecret : Text)
    (payload : Json F) : Text :=
  if requestSecret = [] ∧ config.allowBodySecretFallback then
    let secret := payloadSecret lib payload
    if secret = [] then
      match payload.objectMember? "payload" with
      | some inner => payloadSecret lib inner
      | none => []
    else secret
  else requestSecret

def isAuthorized (lib : Library F) (config : TradingViewExtensionBridgeConfig F) (requestSecret : Text)
    (payload : Json F) : Bool :=
  config.secret = [] || constantTimeEquals (effectiveSecret lib config requestSecret payload) config.secret

def parseExtensionPayload (lib : Library F) (config : TradingViewExtensionBridgeConfig F) (clock : ClockReadings)
    (requestSecret : Text) (payload : Json F) : Exact (TradingViewParseResult F) := do
  let result : TradingViewParseResult F := { rawPayload := redactPayloadSecrets payload }
  if !isAuthorized lib config requestSecret payload then
    return { result with
      authorized := false
      reason := "invalid_secret"
      response := makeResponse false "invalid_secret" [] [] }
  match ← parseEvent lib payload with
  | .error (.runtime message) =>
      return { result with
        reason := "ignored_state_message"
        response := makeResponse false "ignored_state_message" [] [] (some message) }
  | .error (.invalid message) =>
      return { result with
        reason := "invalid_payload"
        response := makeResponse false "invalid_payload" [] [] (some message) }
  | .ok event =>
      let event := { event with symbol := applySymbolMap lib config event.symbol }
      let event := { event with dedupeKey := makeEventKey event }
      finishPayload lib config clock
        { result with
          eventId := event.eventId
          dedupeKey := event.dedupeKey
          parsedPayload := normalizedEventToJson event } event

end OptionX.TradingView
