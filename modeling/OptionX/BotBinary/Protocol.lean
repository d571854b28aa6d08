import OptionX.TradeExecution.Types
import OptionX.TradingView.Text

/-!
# BotBinary commands

The command texts of `BotBinaryProtocol.hpp`: what is prepared for the HTTP listener and for the directory of file
signals, and what is read back. Texts are bytes; an exception is its message.
-/

namespace OptionX.BotBinary

open TradeExecution (OptionType)
open TradingView (Text text isDigit isAlnum)

inductive BotBinaryExpiryKind where
  | duration | endTime
  deriving DecidableEq, Repr

inductive BotBinaryTimeUnit where
  | seconds | minutes | hours
  deriving DecidableEq, Repr

structure BotBinaryAdapterConfig where
  httpBaseUrl : Text := text "http://127.0.0.2/"
  includeSuffixInHttpRequest : Bool := false

structure BotBinaryTradeCommand where
  symbol : Text
  orderType : TradeExecution.OrderType
  amountValue : Text
  expiryKind : BotBinaryExpiryKind := .duration
  expiryValue : UInt64 := 0
  expiryUnit : BotBinaryTimeUnit := .minutes
  idempotencyKey : Text
  transportSuffix : Text := []

structure BotBinaryPreparedCommand where
  idempotencyKey : Text
  requestQueryValue : Text
  httpUrl : Text
  fileName : Text
  transportSuffix : Text
  deriving DecidableEq, Repr

structure BotBinaryParsedCommand where
  symbol : Text
  orderType : TradeExecution.OrderType
  amountValue : Text
  expiryKind : BotBinaryExpiryKind
  expiryValue : UInt64
  expiryUnit : BotBinaryTimeUnit
  transportSuffix : Text
  deriving DecidableEq, Repr

/-- An exception is thrown in a bad case. -/
def throwIf (bad : Prop) [Decidable bad] (message : String) : Except String Unit :=
  if bad then .error message else .ok ()

/-! ## Tokens -/

def botBinaryDirectionToken : TradeExecution.OrderType → Except String Text
  | .buy => .ok (text "CALL")
  | .sell => .ok (text "PUT")
  | .unknown => .error "BotBinary command requires BUY or SELL order_type."

def botBinaryTimeUnitToken : BotBinaryTimeUnit → Text
  | .seconds => text "s"
  | .minutes => text "m"
  | .hours => text "h"

def botBinaryOrderTypeFromDirection (direction : Text) : Except String TradeExecution.OrderType :=
  if direction = text "CALL" then .ok .buy
  else if direction = text "PUT" then .ok .sell
  else .error "BotBinary command requires CALL or PUT direction."

def botBinaryTimeUnitFromToken (unit : Text) : Except String BotBinaryTimeUnit :=
  if unit = text "s" then .ok .seconds
  else if unit = text "m" then .ok .minutes
  else if unit = text "h" then .ok .hours
  else .error "Invalid BotBinary time unit token."

def expiryFieldToken : BotBinaryExpiryKind → Text
  | .duration => text "duration"
  | .endTime => text "endtime"

def expiryKindFromToken (token : Text) : Except String BotBinaryExpiryKind :=
  if token = text "duration" then .ok .duration
  else if token = text "endtime" then .ok .endTime
  else .error "Invalid BotBinary expiry field."

/-! ## Commands -/

/-- A duration in the largest exact unit. -/
def largestUnit (durationSeconds : UInt64) : UInt64 × BotBinaryTimeUnit :=
  if durationSeconds % 3600 = 0 then (durationSeconds / 3600, .hours)
  else if durationSeconds % 60 = 0 then (durationSeconds / 60, .minutes)
  else (durationSeconds, .seconds)

def botBinaryDurationCommand (symbol : Text) (orderType : TradeExecution.OrderType) (amountValue : Text)
    (durationSeconds : UInt64) (idempotencyKey : Text) : Except String BotBinaryTradeCommand := do
  throwIf (durationSeconds = 0) "BotBinary duration must be positive."
  let (expiryValue, expiryUnit) := largestUnit durationSeconds
  return { symbol, orderType, amountValue, expiryValue, expiryUnit, idempotencyKey }

def botBinaryEndTimeCommand (symbol : Text) (orderType : TradeExecution.OrderType) (amountValue : Text)
    (unixEndTimeSeconds : UInt64) (idempotencyKey : Text) : Except String BotBinaryTradeCommand := do
  throwIf (unixEndTimeSeconds = 0) "BotBinary endtime must be positive."
  return {
    symbol, orderType, amountValue, expiryKind := .endTime, expiryValue := unixEndTimeSeconds, expiryUnit := .seconds
    idempotencyKey }

/-! ## What a field may hold -/

def equalsSign : UInt8 := 61

def questionMark : UInt8 := 63

def ampersand : UInt8 := 38

def hashSign : UInt8 := 35

def isControl (ch : UInt8) : Bool := ch < 0x20 || ch = 0x7f

/-- The slash, the backslash, the colon, the asterisk, `?`, the quote, `<`, `>`, the bar, `&` and `#`. -/
def reservedChars : List UInt8 := [47, 92, 58, 42, questionMark, 34, 60, 62, 124, ampersand, hashSign]

def isForbidden (allowEquals : Bool) (ch : UInt8) : Bool :=
  isControl ch || (ch = equalsSign && !allowEquals) || reservedChars.contains ch

def hasForbiddenBotBinaryChar (value : Text) (allowEquals : Bool) : Bool := value.any (isForbidden allowEquals)

def validateBotBinaryToken (value : Text) (field : String) (allowEquals : Bool) : Except String Unit := do
  throwIf (value = []) ("BotBinary " ++ field ++ " must not be empty.")
  throwIf (hasForbiddenBotBinaryChar value allowEquals) ("BotBinary " ++ field ++ " contains unsafe characters.")

def validateOptionxIdempotencyKey (value : Text) : Except String Unit := do
  throwIf (value = []) "BotBinary idempotency_key must not be empty."
  throwIf (512 < value.length) "BotBinary idempotency_key is too long."
  throwIf (value.any isControl) "BotBinary idempotency_key contains control characters."

structure AmountScan where
  seenDot : Bool := false
  seenDigit : Bool := false
  seenFractionDigit : Bool := false
  seenNonzeroDigit : Bool := false

def AmountScan.step (scan : AmountScan) (ch : UInt8) : Except String AmountScan :=
  if isDigit ch then
    .ok { scan with
      seenDigit := true
      seenFractionDigit := scan.seenFractionDigit || scan.seenDot
      seenNonzeroDigit := scan.seenNonzeroDigit || ch ≠ 48 }
  else if ch = 46 ∧ !scan.seenDot then
    if !scan.seenDigit then .error "BotBinary amount must have a digit before decimal point."
    else .ok { scan with seenDot := true }
  else .error "BotBinary amount must be a positive ASCII decimal string."

def validatePositiveDecimalAmount (value : Text) : Except String Unit := do
  throwIf (value = []) "BotBinary amount must not be empty."
  let scan ← value.foldlM AmountScan.step {}
  throwIf (!scan.seenDigit ∨ !scan.seenNonzeroDigit ∨ scan.seenDot && !scan.seenFractionDigit)
    "BotBinary amount must be positive."

/-! ## The default suffix -/

def base36Digit (digit : Nat) : UInt8 := UInt8.ofNat (if digit < 10 then 48 + digit else 87 + digit)

/-- The digits from the last one, most significant first. -/
def base36From (value : Nat) (result : Text) : Text :=
  let result := base36Digit (value % 36) :: result
  if 0 < value / 36 then base36From (value / 36) result else result
termination_by value
decreasing_by omega

def base36Uint64 (value : UInt64) : Text := base36From value.toNat []

def fnv1a64 (value : Text) : UInt64 :=
  value.foldl (fun hash ch => (hash ^^^ ch.toUInt64) * 1099511628211) 14695981039346656037

def defaultBotBinarySuffix (idempotencyKey : Text) : Text := text "ox_" ++ base36Uint64 (fnv1a64 idempotencyKey)

/-! ## Percent escapes -/

def percentSign : UInt8 := 37

/-- A letter, a digit, `-`, `.`, `_` or `~`. -/
def isUnreservedQueryChar (ch : UInt8) : Bool := isAlnum ch || ch = 45 || ch = 46 || ch = 95 || ch = 126

def hexDigit (digit : UInt8) : UInt8 := if digit < 10 then 48 + digit else 55 + digit

def encodeChar (ch : UInt8) : Text :=
  if isUnreservedQueryChar ch then [ch] else [percentSign, hexDigit (ch >>> 4 &&& 0x0f), hexDigit (ch &&& 0x0f)]

def percentEncodeQueryValue (value : Text) : Text := value.flatMap encodeChar

def hexValue (ch : UInt8) : Option UInt8 :=
  if 48 ≤ ch ∧ ch ≤ 57 then some (ch - 48)
  else if 97 ≤ ch ∧ ch ≤ 102 then some (ch - 97 + 10)
  else if 65 ≤ ch ∧ ch ≤ 70 then some (ch - 65 + 10)
  else none

def percentDecodeQueryValue : Text → Except String Text
  | [] => .ok []
  | ch :: rest =>
      if ch ≠ percentSign then (ch :: ·) <$> percentDecodeQueryValue rest
      else
        match rest with
        | high :: low :: rest =>
            match hexValue high, hexValue low with
            | some high, some low => (((high <<< 4) ||| low) :: ·) <$> percentDecodeQueryValue rest
            | _, _ => .error "BotBinary request contains an invalid percent escape."
        | _ => .error "BotBinary request contains an incomplete percent escape."

/-! ## The query of a URL -/

def requestKey : Text := text "request="

/-- What stands between the base URL and the request. -/
def querySeparator (baseUrl : Text) : Text :=
  if questionMark ∉ baseUrl then [questionMark]
  else if baseUrl.getLast? = some questionMark ∨ baseUrl.getLast? = some ampersand then []
  else [ampersand]

def appendBotBinaryRequestQuery (baseUrl requestQueryValue : Text) : Except String Text := do
  throwIf (baseUrl = []) "BotBinary HTTP base URL must not be empty."
  return baseUrl ++ querySeparator baseUrl ++ requestKey ++ percentEncodeQueryValue requestQueryValue

/-- What follows the first question mark, or everything. -/
def queryOf (value : Text) : Text :=
  match value.dropWhile (· ≠ questionMark) with
  | _ :: query => query
  | [] => value

def extractRequestQueryValue (value : Text) : Except String Text :=
  let query := (queryOf value).takeWhile (· ≠ hashSign)
  match (query.splitOn ampersand).find? requestKey.isPrefixOf with
  | some part => percentDecodeQueryValue (part.drop requestKey.length)
  | none => .ok value

/-! ## Readers -/

def parseDigit (field : String) (result : Nat) (ch : UInt8) : Except String Nat := do
  throwIf (!isDigit ch) ("BotBinary " ++ field ++ " must be an unsigned integer.")
  let digit := ch.toNat - 48
  throwIf ((Lib.Machine.uint64Max - digit) / 10 < result) ("BotBinary " ++ field ++ " is too large.")
  return result * 10 + digit

def parsePositiveUint64 (value : Text) (field : String) : Except String UInt64 := do
  throwIf (value = []) ("BotBinary " ++ field ++ " must not be empty.")
  let result ← value.foldlM (parseDigit field) 0
  throwIf (result = 0) ("BotBinary " ++ field ++ " must be positive.")
  return UInt64.ofNat result

def splitBotBinaryTokens (value : Text) : List Text := value.splitOn equalsSign

def joinSuffixTokens (tokens : List Text) (start : Nat) : Text := [equalsSign].intercalate (tokens.drop start)

/-- A suffix that is there is a field. -/
def validateSuffix (transportSuffix : Text) : Except String Unit :=
  if transportSuffix = [] then .ok () else validateBotBinaryToken transportSuffix "transport_suffix" true

def parseBotBinaryValue (value : Text) (requireSuffix : Bool) : Except String BotBinaryParsedCommand :=
  match splitBotBinaryTokens value with
  | symbol :: direction :: amountValue :: kind :: expiry :: unit :: suffix :: tokens => do
      let orderType ← botBinaryOrderTypeFromDirection direction
      let expiryKind ← expiryKindFromToken kind
      let expiryValue ← parsePositiveUint64 expiry "expiry value"
      let expiryUnit ← botBinaryTimeUnitFromToken unit
      let transportSuffix := joinSuffixTokens (suffix :: tokens) 0
      validateBotBinaryToken symbol "symbol" false
      validatePositiveDecimalAmount amountValue
      throwIf (expiryKind = .endTime ∧ expiryUnit ≠ .seconds) "BotBinary endtime expiry must use seconds."
      throwIf (requireSuffix ∧ transportSuffix = []) "BotBinary file signal requires a transport suffix."
      validateSuffix transportSuffix
      return { symbol, orderType, amountValue, expiryKind, expiryValue, expiryUnit, transportSuffix }
  | _ => .error "BotBinary command has too few fields."

/-- What follows the last slash or backslash. -/
def fileLeafName (path : Text) : Text := path.rtakeWhile fun ch => ch ≠ 47 && ch ≠ 92

def stripTxtExtension (name : Text) : Except String Text :=
  if (text ".txt").isSuffixOf name then .ok (name.take (name.length - (text ".txt").length))
  else .error "BotBinary file signal name must end with .txt."

def parseBotBinaryRequestValue (requestQueryValue : Text) : Except String BotBinaryParsedCommand :=
  parseBotBinaryValue requestQueryValue false

def parseBotBinaryHttpRequest (urlOrQuery : Text) : Except String BotBinaryParsedCommand := do
  parseBotBinaryRequestValue (← extractRequestQueryValue urlOrQuery)

def parseBotBinaryFileSignalName (fileName : Text) : Except String BotBinaryParsedCommand := do
  parseBotBinaryValue (← stripTxtExtension (fileLeafName fileName)) true

/-! ## The signal -/

def unitSeconds : BotBinaryTimeUnit → UInt64
  | .seconds => 1
  | .minutes => 60
  | .hours => 3600

def botBinaryDurationSeconds (command : BotBinaryParsedCommand) : Except String UInt64 := do
  throwIf (command.expiryKind ≠ .duration) "BotBinary command is not a duration command."
  let multiplier := unitSeconds command.expiryUnit
  throwIf (UInt64.ofNat Lib.Machine.uint64Max / multiplier < command.expiryValue) "BotBinary duration is too large."
  return command.expiryValue * multiplier

structure TradeSignal (F : Type) where
  symbol : Text
  signalName : Text
  orderType : TradeExecution.OrderType
  amount : F
  optionType : OptionType
  duration : UInt32 := 0
  expiryTime : Int := 0

/-- `stod` gives nothing where `std::stod` throws: no number, or a number out of the range of `double`. -/
def botBinaryToTradeSignal {F : Type} (stod : Text → Option F) (command : BotBinaryParsedCommand) (signalName : Text) :
    Except String (TradeSignal F) :=
  match stod command.amountValue with
  | none => .error "stod"
  | some amount =>
      match command.expiryKind with
      | .duration => do
          let seconds ← botBinaryDurationSeconds command
          throwIf (0xffffffff < seconds) "BotBinary duration is too large for TradeSignal."
          return {
            symbol := command.symbol, signalName, orderType := command.orderType, amount, optionType := .sprint
            duration := seconds.toUInt32 }
      | .endTime => do
          throwIf (Lib.Machine.int64Max < command.expiryValue.toNat) "BotBinary endtime is too large for TradeSignal."
          return {
            symbol := command.symbol, signalName, orderType := command.orderType, amount, optionType := .classic
            expiryTime := command.expiryValue.toNat }

/-! ## Preparing a command -/

/-- A command with the suffix left out. -/
def commandBase (command : BotBinaryTradeCommand) (direction : Text) : Text :=
  command.symbol ++ text "=" ++ direction ++ text "=" ++ command.amountValue ++ text "=" ++
    expiryFieldToken command.expiryKind ++ text "=" ++ text (toString command.expiryValue.toNat) ++ text "=" ++
    botBinaryTimeUnitToken command.expiryUnit ++ text "="

def effectiveSuffix (command : BotBinaryTradeCommand) : Text :=
  if command.transportSuffix = [] then defaultBotBinarySuffix command.idempotencyKey else command.transportSuffix

def prepareBotBinaryCommand (command : BotBinaryTradeCommand) (config : BotBinaryAdapterConfig) :
    Except String BotBinaryPreparedCommand := do
  validateBotBinaryToken command.symbol "symbol" false
  validatePositiveDecimalAmount command.amountValue
  validateOptionxIdempotencyKey command.idempotencyKey
  throwIf (command.expiryValue = 0) "BotBinary expiry value must be positive."
  throwIf (command.expiryKind = .endTime ∧ command.expiryUnit ≠ .seconds) "BotBinary endtime expiry must use seconds."
  let suffix := effectiveSuffix command
  validateBotBinaryToken suffix "transport_suffix" true
  let direction ← botBinaryDirectionToken command.orderType
  let base := commandBase command direction
  let requestQueryValue := if config.includeSuffixInHttpRequest then base ++ suffix else base
  let httpUrl ← appendBotBinaryRequestQuery config.httpBaseUrl requestQueryValue
  return {
    idempotencyKey := command.idempotencyKey
    requestQueryValue
    httpUrl
    fileName := base ++ suffix ++ text ".txt"
    transportSuffix := suffix }

/-- What is read of a trade request. -/
structure TradeRequest where
  symbol : Text
  orderType : TradeExecution.OrderType
  duration : UInt32
  expiryTime : Int64

/-- A command until the expiry time of a request, or else for its duration. -/
def requestCommand (request : TradeRequest) (amountValue idempotencyKey : Text) : Except String BotBinaryTradeCommand :=
  if 0 < request.expiryTime then
    botBinaryEndTimeCommand request.symbol request.orderType amountValue request.expiryTime.toUInt64 idempotencyKey
  else
    botBinaryDurationCommand request.symbol request.orderType amountValue request.duration.toUInt64 idempotencyKey

/-- `prepare_bot_binary_command` of a trade request. -/
def prepareTradeRequest (request : TradeRequest) (amountValue idempotencyKey : Text) (config : BotBinaryAdapterConfig) :
    Except String BotBinaryPreparedCommand := do
  throwIf (request.duration = 0 ∧ request.expiryTime ≤ 0) "BotBinary TradeRequest requires duration or expiry_time."
  let command ← requestCommand request amountValue idempotencyKey
  prepareBotBinaryCommand command config

end OptionX.BotBinary
