import OptionX.TradeExecution.Types
import OptionX.TradingView.Text

/-!
# The configuration of the TradingView bridge

What the parser reads of `TradingViewExtensionBridgeConfig.hpp`, and the validation of a configuration.
-/

namespace OptionX.TradingView

open TradeExecution (OptionType)

structure TradingViewLevelAlertRule where
  alertId : Text := []
  symbol : Text := []
  conditionType : Text := []
  messageEquals : Text := []
  messageContains : Text := []
  action : Text := []
  signalName : Text := []
  deriving DecidableEq

structure TradingViewExtensionBridgeConfig (F : Type) where
  address : Text := text "127.0.0.1"
  signalPath : Text := text "/api/v1/tradingview/signal"
  bridgeId : Nat := 0
  secret : Text := []
  sizingMode : Text := text "fixed_amount"
  fixedAmount : F
  balancePercent : F
  minAmount : F
  maxAmount : F
  optionType : OptionType := .sprint
  duration : Nat := 60
  minPayout : F
  symbolMap : Text → Option Text := fun _ => none
  useDefaultActionKeywords : Bool := true
  buyActionKeywords : List Text := []
  sellActionKeywords : List Text := []
  studyAlertMode : Text := text "realtime"
  studyAlertCloseWindowSeconds : Int := 10
  studyAlertDefaultTimeframeSeconds : Int := 60
  studyAlertMaxSignalAgeSeconds : Int := 300
  studyAlertRejectHistorical : Bool := false
  defaultLevelAction : Text := text "reject"
  levelAlertRules : List TradingViewLevelAlertRule := []
  dedupeCacheSize : Nat := 1024
  requestBodyLimit : Nat := 64 * 1024
  allowCors : Bool := true
  allowedOrigin : Text := text "*"
  allowBodySecretFallback : Bool := false

def normalizeToken (value : Text) : Text := lowerCopy (trimCopy value)

def isValidSizingMode (mode : Text) : Bool :=
  normalizeToken mode ∈ [text "none", text "fixed_amount", text "balance_percent"]

def isValidLevelAction (action : Text) : Bool :=
  normalizeToken action ∈ [text "buy", text "sell", text "reject", text "ignore"]

def isValidStudyAlertMode (mode : Text) : Bool :=
  normalizeToken mode ∈ [text "realtime", text "fast", text "confirmed_only", text "close_window"]

def TradingViewLevelAlertRule.hasMatcher (rule : TradingViewLevelAlertRule) : Bool :=
  rule.alertId ≠ [] || rule.symbol ≠ [] || rule.conditionType ≠ [] || rule.messageEquals ≠ [] ||
    rule.messageContains ≠ []

/-- What a rule of a configuration is refused for. -/
def TradingViewLevelAlertRule.refusal (rule : TradingViewLevelAlertRule) : Option String :=
  if rule.action = [] then some "TradingView bridge level alert rule action is required."
  else if !isValidLevelAction rule.action then
    some "TradingView bridge level alert rule action must be buy, sell, reject, or ignore."
  else if !rule.hasMatcher then some "TradingView bridge level alert rule must define at least one matcher."
  else none

variable {F : Type}

/-- The checks of `validate` in their order: what must hold, and the message where it does not. -/
def TradingViewExtensionBridgeConfig.checks (lib : Library F) (config : TradingViewExtensionBridgeConfig F) :
    List (Bool × String) :=
  [(config.address ≠ [], "TradingView bridge address is empty."),
    (config.signalPath.head? = some 47, "TradingView bridge signal_path must start with '/'."),
    (config.bridgeId ≠ 0, "Bridge ID is required."),
    (isValidSizingMode config.sizingMode,
      "TradingView bridge sizing mode must be none, fixed_amount, or balance_percent."),
    (lib.isFinite config.fixedAmount, "TradingView bridge fixed_amount must be finite."),
    (!lib.less config.fixedAmount lib.zero, "TradingView bridge fixed_amount must not be negative."),
    (!(normalizeToken config.sizingMode = text "fixed_amount" && !lib.less lib.zero config.fixedAmount),
      "TradingView bridge fixed_amount must be positive when sizing mode is fixed_amount."),
    (lib.isFinite config.balancePercent, "TradingView bridge balance_percent must be finite."),
    (!lib.less config.balancePercent lib.zero, "TradingView bridge balance_percent must not be negative."),
    (lib.isFinite config.minAmount && lib.isFinite config.maxAmount,
      "TradingView bridge amount bounds must be finite."),
    (!(lib.less config.minAmount lib.zero || lib.less config.maxAmount lib.zero),
      "TradingView bridge amount bounds must not be negative."),
    (!(lib.less lib.zero config.maxAmount && lib.less config.maxAmount config.minAmount),
      "TradingView bridge min_amount must not exceed max_amount."),
    (config.optionType ≠ .unknown, "TradingView bridge option_type is required."),
    (config.duration ≠ 0, "TradingView bridge duration must be positive."),
    (lib.isFinite config.minPayout, "TradingView bridge minimum payout must be finite."),
    (!(lib.less config.minPayout lib.zero || lib.less lib.one config.minPayout),
      "TradingView bridge minimum payout must be in the 0..1 range."),
    (config.dedupeCacheSize ≠ 0, "TradingView bridge dedupe_cache_size must be positive."),
    (config.requestBodyLimit ≠ 0, "TradingView bridge request_body_limit must be positive."),
    (!(config.allowCors && config.allowedOrigin = []),
      "TradingView bridge allowed_origin must not be empty when CORS is enabled."),
    (config.buyActionKeywords.all fun keyword => normalizeToken keyword ≠ [],
      "TradingView bridge buy action keywords must not contain empty values."),
    (config.sellActionKeywords.all fun keyword => normalizeToken keyword ≠ [],
      "TradingView bridge sell action keywords must not contain empty values."),
    (isValidLevelAction config.defaultLevelAction,
      "TradingView bridge default level alert action must be buy, sell, reject, or ignore."),
    (isValidStudyAlertMode config.studyAlertMode,
      "TradingView bridge study alert mode must be realtime, fast, confirmed_only, or close_window."),
    (0 ≤ config.studyAlertCloseWindowSeconds,
      "TradingView bridge study alert close_window_seconds must not be negative."),
    (0 < config.studyAlertDefaultTimeframeSeconds,
      "TradingView bridge study alert default_timeframe_seconds must be positive."),
    (0 ≤ config.studyAlertMaxSignalAgeSeconds,
      "TradingView bridge study alert max_signal_age_seconds must not be negative.")]

def TradingViewExtensionBridgeConfig.validate (lib : Library F) (config : TradingViewExtensionBridgeConfig F) :
    Bool × String :=
  match (config.checks lib).find? fun check => !check.1 with
  | some check => (false, check.2)
  | none =>
      match config.levelAlertRules.findSome? TradingViewLevelAlertRule.refusal with
      | some message => (false, message)
      | none => (true, "")

end OptionX.TradingView
