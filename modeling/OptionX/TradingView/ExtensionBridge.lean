import OptionX.Lib.RecentKeys
import OptionX.Lib.Run
import OptionX.TradingView.Payload

/-!
# Signal posts

`handle_signal_post` of `TradingViewExtensionBridge.hpp`: from a parsed request to the trade callback, with the cache of
the keys that were handled.
-/

namespace OptionX.TradingView

open Lib (RecentKeys)

variable {F : Type}

/-- The part of the runtime state that signal posts change. -/
structure RuntimeState where
  /-- `dedupe_keys` and `dedupe_order`. -/
  dedupe : RecentKeys Text := {}

/-- Why a request does not reach the payload parser. -/
inductive RequestRefusal where
  | serverStopping
  | bodyTooLarge
  | invalidJson (message : Text)

inductive BridgeSignalReportStatus where
  | invalid | ignored | rejected | duplicate | intakeError
  deriving DecidableEq, Repr

/-- What a call to the outside gives: a value, an exception with its text, or one of another type. -/
inductive CallResult (α : Type) where
  | returned (value : α)
  | threw (message : Text)
  | threwUnknown

/-- A request with what the allocator and the callback do at this post; they may be missing. -/
structure SignalPost (F : Type) where
  request : Except RequestRefusal (TradingViewParseResult F)
  allocator : Option (CallResult Nat)
  callback : Option (CallResult Unit)

/-- The reply, the report, the key that was newly remembered, and the id under which the callback was called. -/
structure PostOutcome where
  statusCode : Nat
  reason : String
  report : Option (BridgeSignalReportStatus × Text) := none
  remembered : Option Text := none
  dispatched : Option Nat := none

/-- The key for which the callback was called. -/
def PostOutcome.called (outcome : PostOutcome) : Option Text :=
  if outcome.dispatched.isSome then outcome.remembered else none

def reportStatusFromParseResult (result : TradingViewParseResult F) : BridgeSignalReportStatus :=
  if !result.authorized ∨ result.reason = "invalid_payload" ∨ result.reason = "missing_symbol" then .invalid
  else if result.reason = "ignored_state_message" then .ignored
  else .rejected

/-- The message of a reply that refuses a payload, or else its reason. -/
def parseReport (result : TradingViewParseResult F) : BridgeSignalReportStatus × Text :=
  (reportStatusFromParseResult result,
    match result.response.member? (text "message") with
    | some (.string message) => orElse message (text result.reason)
    | _ => text result.reason)

def rememberDedupeKey (state : RuntimeState) (dedupeKey : Text) (cacheSize : Nat) : RuntimeState × Bool :=
  if dedupeKey = [] then (state, true)
  else
    let (dedupe, fresh) := state.dedupe.remember cacheSize dedupeKey
    ({ state with dedupe }, fresh)

/-- The queue keeps the key. -/
def forgetDedupeKey (state : RuntimeState) (dedupeKey : Text) : RuntimeState :=
  if dedupeKey = [] then state
  else { state with dedupe := { state.dedupe with keys := state.dedupe.keys.erase dedupeKey } }

/-- The id of the allocator, or the text that is reported. -/
def allocate : CallResult Nat → Except Text Nat
  | .returned 0 => .error (text "TradingView extension bridge could not allocate signal ID.")
  | .returned signalId => .ok signalId
  | .threw message => .error message
  | .threwUnknown => .error (text "TradingView extension signal ID allocator threw an unknown exception.")

/-- What follows once the key of a post is reserved. -/
def dispatchSignal (state : RuntimeState) (dedupeKey : Text) (post : SignalPost F) : RuntimeState × PostOutcome :=
  let failed (reason : String) (message : Text) : RuntimeState × PostOutcome :=
    (forgetDedupeKey state dedupeKey,
      { statusCode := 500, reason, report := some (.intakeError, message), remembered := some dedupeKey })
  match post.allocator, post.callback with
  | none, _ => failed "missing_signal_id_allocator"
      (text "TradingView extension bridge signal ID allocator is not configured.")
  | some _, none => failed "missing_trade_signal_callback"
      (text "TradingView extension bridge trade signal callback is not configured.")
  | some allocator, some callback =>
      match allocate allocator with
      | .error message => failed "signal_id_allocation_failed" message
      | .ok signalId =>
          let outcome : PostOutcome :=
            { statusCode := 500, reason := "ambiguous_dispatch_failure", remembered := some dedupeKey
              dispatched := some signalId }
          match callback with
          | .returned () => (state, { outcome with statusCode := 200, reason := "accepted" })
          | .threw message => (state, { outcome with report := some (.intakeError, message) })
          | .threwUnknown =>
              (state, { outcome with
                report := some (.intakeError,
                  text "TradingView extension trade signal callback threw an unknown exception.") })

def handleSignalPost (cacheSize : Nat) (state : RuntimeState) (post : SignalPost F) : RuntimeState × PostOutcome :=
  match post.request with
  | .error .serverStopping => (state, { statusCode := 503, reason := "server_stopping" })
  | .error .bodyTooLarge =>
      (state, { statusCode := 413, reason := "request_body_too_large"
                report := some (.invalid, text "TradingView extension request body is too large.") })
  | .error (.invalidJson message) =>
      (state, { statusCode := 400, reason := "invalid_json", report := some (.invalid, message) })
  | .ok result =>
      if !result.authorized then
        (state, { statusCode := 401, reason := result.reason
                  report := some (parseReport result) })
      else if !result.accepted then
        (state, { statusCode := 200, reason := result.reason
                  report := some (parseReport result) })
      else
        let (state, fresh) := rememberDedupeKey state result.dedupeKey cacheSize
        if !fresh then
          (state, { statusCode := 200, reason := "duplicate"
                    report := some (.duplicate,
                      text "TradingView extension event duplicated a recently handled signal.") })
        else dispatchSignal state result.dedupeKey post

end OptionX.TradingView
