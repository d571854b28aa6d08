import OptionX.Components.TradingConditionUpdate
import OptionX.IntradeBar.ActiveTradesSync

/-!
# The trading condition manager

`TradingConditionManager.hpp`, with what it asks of `AccountInfoData.hpp`. The calendar functions of the time library
are a parameter.
-/

namespace OptionX.IntradeBar

open Components (ConditionScope TradingConditionUpdate)
open Storage (PlatformType)
open TradeExecution (AccountType OptionType)
open TradingSystem (CurrencyType)

/-- `supported_symbols`. -/
def supportedSymbols : List String :=
  ["AUDCAD", "AUDCHF", "AUDJPY", "AUDNZD", "AUDUSD", "CADJPY", "EURAUD", "EURCAD", "EURCHF", "EURGBP", "EURJPY",
    "EURUSD", "GBPAUD", "GBPCHF", "GBPJPY", "GBPNZD", "NZDJPY", "NZDUSD", "USDCAD", "USDCHF", "USDJPY", "BTCUSDT"]

/-- `std::isspace` in the C locale. -/
def isSpace (c : Char) : Bool := c = ' ' ∨ 9 ≤ c.toNat ∧ c.toNat ≤ 13

def normalizeSymbolName (symbol : String) : String :=
  let name := String.ofList ((symbol.toList.filter fun c => c ≠ '/' ∧ ¬ isSpace c).map Char.toUpper)
  if name = "BTCUSD" then "BTCUSDT" else name

def isBtcSymbol (symbol : String) : Bool := normalizeSymbolName symbol = "BTCUSDT"

/-- The functions of the time library on seconds. -/
structure TimeShield where
  secOfDay : Int → Int
  isDayOff : Int → Bool
  startOfMin : Int → Int

namespace TradingConditionManager

/-- The fields of `AccountInfoData` that make conditions. -/
structure AccountInfoData (F : Type) where
  currency : CurrencyType := .unknown
  accountType : AccountType := .unknown
  connect : Bool := false
  openTrades : Int := 0
  minUsdAmount : F
  maxUsdAmount : F
  maxUsdLimitAmount : F
  minRubAmount : F
  maxRubAmount : F
  maxRubLimitAmount : F
  minDuration : Int := 60
  minBtcDuration : Int := 300
  maxDuration : Int := 30000
  maxTrades : Int := 5
  maxLimitTrades : Int := 2
  startBtcTime : Int := 0
  endBtcTime : Int := 86400
  startTime : Int := 3600
  endTime : Int := 75600

/-- The times of day with lower limits. -/
def checkAmountLimits (secondDay : Int) : Bool :=
  (50100 ≤ secondDay ∧ secondDay < 50700) ∨ (53700 ≤ secondDay ∧ secondDay < 54300) ∨
    (57300 ≤ secondDay ∧ secondDay < 57900) ∨ (60900 ≤ secondDay ∧ secondDay < 61500) ∨
    (64500 ≤ secondDay ∧ secondDay < 65100) ∨ (68100 ≤ secondDay ∧ secondDay < 68700) ∨
    (71700 ≤ secondDay ∧ secondDay < 72300) ∨ (73500 ≤ secondDay ∧ secondDay < 74100) ∨ 75300 ≤ secondDay

section

variable {F : Type} [Zero F] (T : TimeShield)

namespace AccountInfoData

/-- The amount for the currency of the request, or else for that of the account. -/
def amountFor (account : AccountInfoData F) (currency : CurrencyType) (usd rub : F) : F :=
  if currency = .usd then usd
  else if currency = .rub then rub
  else if account.currency = .usd then usd
  else if account.currency = .rub then rub
  else 0

def getMinAmount (account : AccountInfoData F) (currency : CurrencyType) : F :=
  account.amountFor currency account.minUsdAmount account.minRubAmount

def getMaxAmount (account : AccountInfoData F) (currency : CurrencyType) (timestamp : Int) : F :=
  if checkAmountLimits (T.secOfDay timestamp) then
    account.amountFor currency account.maxUsdLimitAmount account.maxRubLimitAmount
  else account.amountFor currency account.maxUsdAmount account.maxRubAmount

def getMaxTrades (account : AccountInfoData F) (timestamp : Int) : Int :=
  if checkAmountLimits (T.secOfDay timestamp) then account.maxLimitTrades else account.maxTrades

def getMinDuration (account : AccountInfoData F) (symbol : String) : Int :=
  if isBtcSymbol symbol then account.minBtcDuration else account.minDuration

def getMaxDurationSec (account : AccountInfoData F) (symbol : String) (timestamp : Int) : Int :=
  if isBtcSymbol symbol then account.maxDuration
  else min (T.startOfMin (account.endTime - T.secOfDay timestamp)) account.maxDuration

end AccountInfoData

def clampU32 (value : Int) : Nat := if value ≤ 0 then 0 else (min value 4294967295).toNat

def nextClassicExpiry (timestamp : Int) : Int :=
  let future := timestamp + 480
  future - future.tmod 300

def makeSnapshot (account : AccountInfoData F) (symbol : String) (optionType : OptionType) (timestamp : Int)
    (connected : Bool) : TradingConditionUpdate F :=
  let btc := isBtcSymbol symbol
  let secondOfDay := T.secOfDay timestamp
  let sessionStart := if btc then account.startBtcTime else account.startTime
  let sessionEnd := if btc then account.endBtcTime else account.endTime
  let sessionOpen : Bool := sessionStart ≤ secondOfDay ∧ secondOfDay < sessionEnd
  let marketOpen := sessionOpen && (btc || !T.isDayOff timestamp)
  let maxOpenTrades := clampU32 (account.getMaxTrades T timestamp)
  let minDuration := account.getMinDuration symbol
  let maxDuration := account.getMaxDurationSec T symbol timestamp
  let expiryTime := nextClassicExpiry timestamp
  let expirationAvailable : Bool :=
    if optionType = .sprint then minDuration ≤ maxDuration
    else sessionStart ≤ T.secOfDay expiryTime ∧ T.secOfDay expiryTime ≤ sessionEnd ∧ expiryTime.tmod 300 = 0 ∧
      180 ≤ expiryTime - timestamp
  let tradeSlotAvailable : Bool := account.openTrades < maxOpenTrades
  { symbol, platformType := .intradeBar, accountType := account.accountType, currency := account.currency, optionType
    timestamp
    minAmount := some (account.getMinAmount account.currency)
    maxAmount := some (account.getMaxAmount T account.currency timestamp)
    maxOpenTrades := some maxOpenTrades
    marketOpen := some marketOpen
    sessionStart := some sessionStart
    sessionEnd := some sessionEnd
    minDuration := if optionType = .sprint then some (clampU32 minDuration) else none
    maxDuration := if optionType = .sprint then some (clampU32 maxDuration) else none
    tradable := some (connected && marketOpen && expirationAvailable && tradeSlotAvailable) }

/-- Each supported symbol with its option types, in the order in which snapshots are made. -/
def supportedScopes : List (String × OptionType) :=
  supportedSymbols.flatMap fun symbol =>
    (symbol, .sprint) :: if isBtcSymbol symbol then [] else [(symbol, .classic)]

def makeSnapshots (account : AccountInfoData F) (timestamp : Int) (connected : Bool) :
    List (TradingConditionUpdate F) :=
  supportedScopes.map fun scope => makeSnapshot T account scope.1 scope.2 timestamp connected

/-- What a refresh looks at. -/
structure Evaluation (F : Type) where
  account : AccountInfoData F
  timestamp : Int
  connected : Bool

end

end TradingConditionManager

open TradingConditionManager in
structure TradingConditionManager (F : Type) where
  accountInfo : Option (TradingConditionManager.AccountInfoData F)
  lastSnapshots : List (TradingConditionUpdate F) := []
  lastRefreshSec : Int := 0
  connected : Bool := false
  /-- What the last refresh looked at, if the account's identity was known and no shutdown has come since. -/
  evaluated : Option (Evaluation F) := none

namespace TradingConditionManager

variable {F : Type} [Zero F] [DecidableEq F] (T : TimeShield)

inductive Event (F : Type) where
  /-- An update whose account is no `AccountInfoData` carries `none`. -/
  | accountInfoUpdate (accountInfo : Option (AccountInfoData F)) (status : AccountUpdateStatus) (nowSec : Int)
  | process (nowSec : Int)
  | shutdown (nowSec : Int)

omit [Zero F] in
/-- Everything but the timestamp. -/
def sameValues (left right : TradingConditionUpdate F) : Bool :=
  left.sameScope right ∧ left.marketOpen = right.marketOpen ∧ left.tradable = right.tradable ∧
    left.payout = right.payout ∧ left.minAmount = right.minAmount ∧ left.maxAmount = right.maxAmount ∧
    left.minRefund = right.minRefund ∧ left.maxRefund = right.maxRefund ∧ left.minDuration = right.minDuration ∧
    left.maxDuration = right.maxDuration ∧ left.maxOpenTrades = right.maxOpenTrades ∧
    left.sessionStart = right.sessionStart ∧ left.sessionEnd = right.sessionEnd ∧ left.message = right.message

/-- The update that marks a scope unavailable. -/
def retired (previous : TradingConditionUpdate F) (timestamp : Int) (message : String) : TradingConditionUpdate F :=
  { toConditionScope := previous.scope, timestamp, tradable := some false, message }

/-- The updates that `retire_missing_scopes` publishes. -/
def retireMissingScopes (s : TradingConditionManager F) (next : List (TradingConditionUpdate F)) (timestamp : Int) :
    List (TradingConditionUpdate F) :=
  (s.lastSnapshots.filter fun previous => ¬ next.any previous.sameScope).map
    (retired · timestamp "Intrade Bar account condition scope changed.")

/-- The account if its type and its currency are known. -/
def knownAccount (s : TradingConditionManager F) : Option (AccountInfoData F) :=
  s.accountInfo.filter fun account => account.accountType ≠ .unknown ∧ account.currency ≠ .unknown

def refresh (s : TradingConditionManager F) (timestamp : Int) :
    TradingConditionManager F × List (TradingConditionUpdate F) :=
  match s.knownAccount with
  | none =>
      ({ s with lastRefreshSec := timestamp, lastSnapshots := [], evaluated := none },
        s.retireMissingScopes [] timestamp)
  | some account =>
      let next := makeSnapshots T account timestamp s.connected
      let changed := next.filter fun current =>
        match s.lastSnapshots.find? current.sameScope with
        | none => true
        | some previous => !sameValues previous current
      ({ s with
          lastRefreshSec := timestamp
          lastSnapshots := next
          evaluated := some ⟨account, timestamp, s.connected⟩ },
        s.retireMissingScopes next timestamp ++ changed)

/-- `m_connected` after an update of an account, unless the update is to be ignored. -/
def connectedAfter (account : AccountInfoData F) : AccountUpdateStatus → Option Bool
  | .connecting | .disconnected | .failedToConnect => some false
  | .connected => some true
  | .balanceUpdated | .accountTypeChanged | .currencyChanged | .openTradesChanged => some account.connect
  | .unknown => none

def onEvent (s : TradingConditionManager F) (accountInfo : Option (AccountInfoData F)) (status : AccountUpdateStatus)
    (nowSec : Int) : TradingConditionManager F × List (TradingConditionUpdate F) :=
  match accountInfo <|> s.accountInfo with
  | none => (s, [])
  | some account =>
      match connectedAfter account status with
      | none => ({ s with accountInfo := some account }, [])
      | some connected => refresh T { s with accountInfo := some account, connected } nowSec

def shutdown (s : TradingConditionManager F) (nowSec : Int) :
    TradingConditionManager F × List (TradingConditionUpdate F) :=
  ({ s with connected := false, lastRefreshSec := 0, lastSnapshots := [], evaluated := none },
    s.lastSnapshots.map (retired · nowSec "Intrade Bar account condition manager stopped."))

/-- A step of the manager with the updates that it publishes. -/
def step (s : TradingConditionManager F) : Event F → TradingConditionManager F × List (TradingConditionUpdate F)
  | .accountInfoUpdate accountInfo status nowSec => s.onEvent T accountInfo status nowSec
  | .process nowSec => if nowSec = s.lastRefreshSec then (s, []) else s.refresh T nowSec
  | .shutdown nowSec => s.shutdown nowSec

/-- The conditions of the account as it was last evaluated. -/
def current (s : TradingConditionManager F) : List (TradingConditionUpdate F) :=
  match s.evaluated with
  | none => []
  | some e => makeSnapshots T e.account e.timestamp e.connected

/-- The account identity that was last evaluated. -/
def identity (s : TradingConditionManager F) : Option (AccountType × CurrencyType) :=
  s.evaluated.map fun e => (e.account.accountType, e.account.currency)

end TradingConditionManager

end OptionX.IntradeBar
