import OptionX.BotBinary.Protocol
import OptionX.Lib.Calls
import OptionX.Lib.RecentKeys
import OptionX.Lib.Run
import OptionX.TradingView.ExtensionBridge

/-!
# The BotBinary bridge

The intake of `BotBinaryBridge.hpp`: HTTP requests and file signals that any number of threads handle at once, from the text
of a command to the trade callback. Each event is one critical section under the mutex, with what its thread computes before
it, or one call to the outside. Reports, and the files themselves, are left out.
-/

namespace OptionX.BotBinary

open Lib (Frame RecentKeys)
open Lib.Calls (stageOf goOn)
open TradeExecution (OptionType)
open TradingView (CallResult Text text trimCopy)

structure BotBinaryBridgeConfig where
  signalName : Text := text "bot_binary"
  dedupeCacheSize : Nat := 1024
  requestQueryLimit : Nat := 64 * 1024
  symbolMap : List (Text × Text) := []

/-- `double`, as far as an amount is read and checked. -/
structure Amounts (F : Type) where
  /-- `std::stod`; nothing where it throws. -/
  stod : Text → Option F
  isFinite : F → Bool
  /-- Whether a number is below zero. -/
  isNegative : F → Bool
  isZero : F → Bool

variable {T F : Type} [DecidableEq T]

/-! ## From a text to a signal -/

/-- `validate_executable_trade_signal`; the ratios of these signals are zero. -/
def validateExecutableTradeSignal (amounts : Amounts F) (signal : TradeSignal F) (context : String) :
    Except String Unit := do
  throwIf (trimCopy signal.symbol = []) (context ++ " symbol is required.")
  throwIf (signal.orderType = .unknown) (context ++ " order_type must be BUY or SELL.")
  throwIf (signal.optionType = .unknown) (context ++ " option_type must be SPRINT or CLASSIC.")
  throwIf (!amounts.isFinite signal.amount ∨ amounts.isNegative signal.amount)
    (context ++ " amount must be finite and non-negative.")
  throwIf (amounts.isZero signal.amount) (context ++ " amount must be positive.")
  throwIf (signal.expiryTime < 0) (context ++ " expiry_time must not be negative.")
  throwIf (decide (signal.duration ≠ 0) = decide (0 < signal.expiryTime))
    (context ++ " requires exactly one expiry representation.")

def applySymbolMap (signal : TradeSignal F) (config : BotBinaryBridgeConfig) : TradeSignal F :=
  match config.symbolMap.lookup signal.symbol with
  | some symbol => { signal with symbol := trimCopy symbol }
  | none => signal

def dedupeKeyForCommand (command : BotBinaryParsedCommand) (rawValue : Text) : Text :=
  if command.transportSuffix ≠ [] then text "suffix:" ++ command.transportSuffix else text "raw:" ++ rawValue

/-- The reply to a command: whether it is accepted, the reason if not, and the message of an exception. -/
structure Reply where
  accepted : Bool := false
  reason : String := ""
  message : Text := []
  deriving DecidableEq, Repr

def parseRawValue (rawValue : Text) (fileSignal : Bool) : Except String BotBinaryParsedCommand :=
  if fileSignal then parseBotBinaryFileSignalName rawValue else parseBotBinaryRequestValue rawValue

/-- The key of a command and the signal it is converted to. -/
def convertRawValue (config : BotBinaryBridgeConfig) (amounts : Amounts F) (rawValue : Text) (fileSignal : Bool) :
    Except String (Text × TradeSignal F) := do
  let command ← parseRawValue rawValue fileSignal
  let signal ← botBinaryToTradeSignal amounts.stod command config.signalName
  return (dedupeKeyForCommand command rawValue, applySymbolMap signal config)

/-- The key and the signal of a command, or the reply that refuses it. -/
def commandSignal (config : BotBinaryBridgeConfig) (amounts : Amounts F) (rawValue : Text) (fileSignal : Bool) :
    Except Reply (Text × TradeSignal F) :=
  match convertRawValue config amounts rawValue fileSignal with
  | .error message => .error { reason := "invalid_bot_binary_command", message := text message }
  | .ok (dedupeKey, signal) =>
      match validateExecutableTradeSignal amounts signal "BotBinary signal" with
      | .error message => .error { reason := "invalid_trade_signal", message := text message }
      | .ok () => .ok (dedupeKey, signal)

/-! ## The caches -/

/-- The caches of the runtime state. -/
structure RuntimeState where
  /-- `dedupe_keys` and `dedupe_order`. -/
  dedupe : RecentKeys Text := {}
  /-- `seen_file_keys` and `seen_file_order`. -/
  seenFiles : RecentKeys Text := {}

def rememberKey (state : RuntimeState) (key : Text) (cacheSize : Nat) : RuntimeState × Bool :=
  if key = [] then (state, true)
  else
    let (dedupe, fresh) := state.dedupe.remember cacheSize key
    ({ state with dedupe }, fresh)

def forgetKey (state : RuntimeState) (key : Text) : RuntimeState :=
  if key = [] then state else { state with dedupe := state.dedupe.forget key }

def rememberFileSeen (state : RuntimeState) (key : Text) (cacheSize : Nat) : RuntimeState × Bool :=
  let (seenFiles, fresh) := state.seenFiles.remember cacheSize key
  ({ state with seenFiles }, fresh)

/-! ## Commands in progress -/

/-- Where the handling of a command stands. -/
inductive Stage (F : Type) where
  /-- A file that was newly seen. -/
  | seen (fileName : Text)
  /-- The key is remembered; the slots of the allocator and the callback are read next. -/
  | remembered (dedupeKey : Text) (signal : TradeSignal F)
  | allocating (dedupeKey : Text) (signal : TradeSignal F)
  | calling (dedupeKey : Text) (signal : TradeSignal F) (signalId : Nat)
  /-- The key is forgotten next. -/
  | failed (dedupeKey : Text) (reply : Reply)

/-- The key that a command has reserved. -/
def Stage.key? : Stage F → Option Text
  | .seen _ => none
  | .remembered key _ | .allocating key _ | .calling key _ _ | .failed key _ => some key

structure Bridge (T F : Type) where
  state : RuntimeState := {}
  calls : List (Frame T (Stage F)) := []

inductive Event (T : Type) where
  /-- An HTTP request. -/
  | request (thread : T) (query : Text)
  /-- The poll meets a file. -/
  | file (thread : T) (fileName : Text)
  | dispatchFile (thread : T)
  /-- The slots are read, and whether they are filled. -/
  | readSlots (thread : T) (allocator callback : Bool)
  | allocated (thread : T) (result : CallResult Nat)
  | called (thread : T) (result : CallResult Unit)
  | forget (thread : T)

/-- What an event gives: a reply, a file newly seen, a key newly reserved, and a key whose callback came back other than by
an exception that is caught. -/
structure Answer where
  reply : Option Reply := none
  seen : Option Text := none
  reserved : Option Text := none
  handled : Option Text := none

/-- The call of a thread, of which there may be none, goes on to a stage or returns. -/
def setStage (t : T) (stage : Option (Stage F)) (calls : List (Frame T (Stage F))) : List (Frame T (Stage F)) :=
  if (stageOf t calls).isSome then goOn t stage calls else calls ++ (stage.map (Frame.mk t)).toList

/-- The stage of a thread is set. -/
def Bridge.set (s : Bridge T F) (t : T) (stage : Option (Stage F)) : Bridge T F :=
  { s with calls := setStage t stage s.calls }

/-- `dispatch_raw_value`, up to the key that is remembered. -/
def dispatchRawValue (config : BotBinaryBridgeConfig) (amounts : Amounts F) (s : Bridge T F) (t : T) (rawValue : Text)
    (fileSignal : Bool) : Bridge T F × Answer :=
  match commandSignal config amounts rawValue fileSignal with
  | .error reply => (s.set t none, { reply := some reply })
  | .ok (dedupeKey, signal) =>
      let (state, fresh) := rememberKey s.state dedupeKey config.dedupeCacheSize
      if fresh then
        ({ s.set t (some (.remembered dedupeKey signal)) with state }, { reserved := some dedupeKey })
      else ({ s.set t none with state }, { reply := some { reason := "duplicate" } })

def handleHttpRequest (config : BotBinaryBridgeConfig) (amounts : Amounts F) (s : Bridge T F) (t : T) (query : Text) :
    Bridge T F × Answer :=
  if config.requestQueryLimit < query.length then (s, { reply := some { reason := "request_query_too_large" } })
  else
    match extractRequestQueryValue query with
    | .error message => (s, { reply := some { reason := "invalid_bot_binary_query", message := text message } })
    | .ok rawValue => dispatchRawValue config amounts s t rawValue false

/-- One file of `poll_file_signals`. -/
def pollFile (config : BotBinaryBridgeConfig) (s : Bridge T F) (t : T) (fileName : Text) : Bridge T F × Answer :=
  let (state, fresh) := rememberFileSeen s.state fileName config.dedupeCacheSize
  if fresh then ({ s.set t (some (.seen fileName)) with state }, { seen := some fileName })
  else ({ s with state }, {})

def slotsRead (dedupeKey : Text) (signal : TradeSignal F) (allocator callback : Bool) : Stage F :=
  if !allocator then .failed dedupeKey { reason := "missing_signal_id_allocator" }
  else if !callback then .failed dedupeKey { reason := "missing_trade_signal_callback" }
  else .allocating dedupeKey signal

def idAllocated (dedupeKey : Text) (signal : TradeSignal F) : CallResult Nat → Stage F
  | .threw message => .failed dedupeKey { reason := "signal_id_allocator_failed", message }
  | .threwUnknown => .failed dedupeKey { reason := "signal_id_allocator_failed" }
  | .returned 0 => .failed dedupeKey { reason := "signal_id_allocation_failed" }
  | .returned signalId => .calling dedupeKey signal signalId

/-- An exception that is not a `std::exception` leaves the bridge, and the key stays. -/
def callbackReturned (s : Bridge T F) (t : T) (dedupeKey : Text) : CallResult Unit → Bridge T F × Answer
  | .returned () => (s.set t none, { reply := some { accepted := true }, handled := some dedupeKey })
  | .threw message => (s.set t (some (.failed dedupeKey { reason := "trade_signal_callback_failed", message })), {})
  | .threwUnknown => (s.set t none, { handled := some dedupeKey })

def step (config : BotBinaryBridgeConfig) (amounts : Amounts F) (s : Bridge T F) : Event T → Bridge T F × Answer
  | .request t query =>
      match stageOf t s.calls with
      | none => handleHttpRequest config amounts s t query
      | some _ => (s, {})
  | .file t fileName =>
      match stageOf t s.calls with
      | none => pollFile config s t fileName
      | some _ => (s, {})
  | .dispatchFile t =>
      match stageOf t s.calls with
      | some (.seen fileName) => dispatchRawValue config amounts s t fileName true
      | _ => (s, {})
  | .readSlots t allocator callback =>
      match stageOf t s.calls with
      | some (.remembered key signal) => (s.set t (some (slotsRead key signal allocator callback)), {})
      | _ => (s, {})
  | .allocated t result =>
      match stageOf t s.calls with
      | some (.allocating key signal) => (s.set t (some (idAllocated key signal result)), {})
      | _ => (s, {})
  | .called t result =>
      match stageOf t s.calls with
      | some (.calling key _ _) => callbackReturned s t key result
      | _ => (s, {})
  | .forget t =>
      match stageOf t s.calls with
      | some (.failed key reply) => ({ s.set t none with state := forgetKey s.state key }, { reply := some reply })
      | _ => (s, {})

end OptionX.BotBinary
