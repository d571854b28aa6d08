import OptionX.TradingView.Text

/-!
# The events of a TradingView payload

The readers of JSON values and the parser of `TradingViewExtensionProtocol.hpp`: from a payload to a normalized event.
-/

namespace OptionX.TradingView

open Lib.Machine

structure NormalizedEvent (F : Type) where
  sourceKind : Text := text "tradingview_extension"
  method : Text := []
  fireId : Text := []
  alertId : Text := []
  eventId : Text := []
  dedupeKey : Text := []
  fingerprint : Text := []
  symbol : Text := []
  originalSymbol : Text := []
  action : Text := []
  conditionType : Text := []
  signalState : Text := []
  signalLifecycleId : Text := []
  signalName : Text := []
  alertName : Text := []
  message : Text := []
  barState : Text := []
  barStateSource : Text := []
  timeframe : Text := []
  triggerUnit : Text := []
  price : F
  triggerValue : F
  time : Int := 0
  barTime : Int := 0
  updateTime : Int := 0
  timeframeSeconds : Int := 0
  signalRevision : Int := 0
  hasTriggerValue : Bool := false
  isLevelAlert : Bool := false
  raw : Json F

variable {F : Type}

/-! ## The readers -/

def scalarToString (lib : Library F) (value : Json F) : Text :=
  match value.int64?, value with
  | some number, _ => text (toString number)
  | none, .string value => value
  | none, .float value => lib.format value
  | none, .boolean value => text (if value then "true" else "false")
  | none, _ => []

def jsonString (lib : Library F) (object : Json F) (key : String) : Text :=
  match object.member? (text key) with
  | some value => scalarToString lib value
  | none => []

/-- The first of the keys with a text that is not empty. -/
def firstJsonString (lib : Library F) (object : Json F) : List String → Text
  | [] => []
  | key :: keys =>
      let value := jsonString lib object key
      if value ≠ [] then value else firstJsonString lib object keys

/-- The value as the code takes it for a key of `json_integer`; nothing where it goes on to the next key. -/
def integerOf (lib : Library F) (value : Json F) : Exact (Option Int) :=
  match value.int64?, value with
  | some number, _ => .ok (some number)
  | none, .float value => do
      let whole := lib.truncate value
      if int64Min ≤ whole ∧ whole ≤ int64Max then return some whole else .error .conversion
  | none, .string value =>
      match strictIntegerStringToI64 value with
      | some number => .ok (some number)
      | none => iso8601UtcStringToMs value
  | none, _ => .ok none

def jsonInteger (lib : Library F) (object : Json F) (fallback : Int) : List String → Exact Int
  | [] => .ok fallback
  | key :: keys =>
      match object.member? (text key) with
      | none => jsonInteger lib object fallback keys
      | some value => do
          match ← integerOf lib value with
          | some number => return number
          | none => jsonInteger lib object fallback keys

end OptionX.TradingView
