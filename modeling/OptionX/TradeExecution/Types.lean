import OptionX.TradingSystem.Types

/-!
# Trades, results and the trade state manager

What the trade queue works on: `TradeRequest`, `TradeResult`, the transaction that owns both, the answers of
the account-info provider, and `TradeStateManager.hpp`. Amounts and prices are doubles in the source; the
queue only adds and compares them, so they are an arbitrary type `F` with these operations.
-/

namespace OptionX.TradeExecution

open TradingSystem (CurrencyType)

inductive TradeState where
  | unknown | waitingOpen | openSuccess | openError | inProgress | waitingClose | checkError
  | win | loss | standoff | refund | canceledTrade
  deriving DecidableEq, Repr

inductive OptionType where
  | unknown | sprint | classic
  deriving DecidableEq, Repr

inductive OrderType where
  | unknown | buy | sell
  deriving DecidableEq, Repr

inductive AccountType where
  | unknown | demo | real
  deriving DecidableEq, Repr

inductive TradeErrorCode where
  | success | invalidSymbol | invalidOption | invalidOrder | invalidAccount | invalidCurrency
  | amountTooLow | amountTooHigh | refundTooLow | refundTooHigh | payoutTooLow | invalidDuration
  | invalidExpiryTime | limitOpenTrades | invalidRequest | longQueueWait | longResponseWait
  | noConnection | clientForcedClose | parsingError | canceledTrade | insufficientBalance
  deriving DecidableEq, Repr

def TradeErrorCode.toStr : TradeErrorCode → String
  | .success => "Success."
  | .invalidSymbol => "Invalid symbol."
  | .invalidOption => "Invalid option type."
  | .invalidOrder => "Invalid order type."
  | .invalidAccount => "Invalid account type."
  | .invalidCurrency => "Invalid currency."
  | .amountTooLow => "Amount below minimum."
  | .amountTooHigh => "Amount above maximum."
  | .refundTooLow => "Refund below minimum."
  | .refundTooHigh => "Refund above maximum."
  | .payoutTooLow => "Low payout percentage."
  | .invalidDuration => "Invalid duration."
  | .invalidExpiryTime => "Invalid expiry time."
  | .limitOpenTrades => "Reached open trades limit."
  | .invalidRequest => "Invalid request."
  | .longQueueWait => "Long wait in the order queue."
  | .longResponseWait => "Long wait for server response."
  | .noConnection => "No network connection."
  | .clientForcedClose => "Forced client shutdown."
  | .parsingError => "Parser error."
  | .canceledTrade => "Canceled."
  | .insufficientBalance => "Insufficient balance."

structure TradeRequest (F : Type) where
  symbol : String
  tradeId : UInt32
  optionType : OptionType
  orderType : OrderType
  accountType : AccountType
  currency : CurrencyType
  amount : F
  duration : UInt32
  expiryTime : Int

structure TradeResult (F : Type) where
  tradeId : UInt32
  errorCode : TradeErrorCode
  errorDesc : String
  amount : F
  payout : F
  profit : F
  balance : F
  openBalance : F
  closeBalance : F
  balanceFlags : UInt8
  openPrice : F
  closePrice : F
  placeDate : Int
  sendDate : Int
  openDate : Int
  closeDate : Int
  tradeState : TradeState
  liveState : TradeState
  accountType : AccountType
  currency : CurrencyType
  platformType : Nat

/-- A request and its result, shared with the broker component until `asyncActive` is cleared. `ref` stands
for the identity of the shared object. -/
structure Transaction (F : Type) where
  ref : Nat
  request : TradeRequest F
  result : TradeResult F
  asyncActive : Bool := true

/-- The `get_for_trade<bool>` queries of `validate_request`. -/
inductive TradeCheck where
  | tradeLimitNotExceeded | amountBelowMax | amountAboveMin | refundBelowMax | refundAboveMin
  | durationAvailable | expirationDateAvailable | payoutAboveMin | amountBelowBalance
  deriving DecidableEq, Repr

/-- The answers of the account-info provider at one moment; the last argument of a query is its
timestamp. -/
structure AccountInfo (F : Type) where
  accountType : AccountType
  currency : CurrencyType
  connectionStatus : Bool
  orderIntervalMs : Int
  orderQueueTimeout : Int
  responseTimeout : Int
  openTrades : TradeRequest F → Int
  maxTrades : TradeRequest F → Int
  balance : TradeRequest F → Int → F
  payout : TradeRequest F → Int → F
  bySymbol : String → Int → Bool
  byOption : OptionType → Int → Bool
  byOrder : OrderType → Int → Bool
  byAccount : AccountType → Int → Bool
  byCurrency : CurrencyType → Int → Bool
  forTrade : TradeCheck → TradeRequest F → Int → Bool

def secToMs (sec : Int) : Int := sec * 1000
def msToSec (ms : Int) : Int := ms / 1000

variable {F : Type}

namespace TradeRequest

/-- `create_trade_result_unique` with the dates and the platform that `add_trade` fills in. -/
def createTradeResult [Zero F] (request : TradeRequest F) (placeDate : Int) (platformType : Nat) :
    TradeResult F where
  tradeId := request.tradeId
  errorCode := .success
  errorDesc := ""
  amount := request.amount
  payout := 0
  profit := 0
  balance := 0
  openBalance := 0
  closeBalance := 0
  balanceFlags := 0
  openPrice := 0
  closePrice := 0
  placeDate := placeDate
  sendDate := 0
  openDate := 0
  closeDate := 0
  tradeState := .unknown
  liveState := .unknown
  accountType := request.accountType
  currency := request.currency
  platformType := platformType

end TradeRequest

namespace TradeResult

def setBalance (r : TradeResult F) (value : F) : TradeResult F :=
  { r with balance := value, balanceFlags := r.balanceFlags ||| 1 }

def setOpenBalance (r : TradeResult F) (value : F) : TradeResult F :=
  { r with openBalance := value, balanceFlags := r.balanceFlags ||| 2 }

def setCloseBalance (r : TradeResult F) (value : F) : TradeResult F :=
  { r with closeBalance := value, balanceFlags := r.balanceFlags ||| 4 }

def setState (r : TradeResult F) (state : TradeState) : TradeResult F :=
  { r with tradeState := state, liveState := state }

end TradeResult

/-- `cancel_async_operations`: the broker may no longer write to the result. -/
def Transaction.cancelAsyncOperations (t : Transaction F) : Transaction F :=
  { t with asyncActive := false }

/-! ## The trade state manager -/

def isClosableState (state : TradeState) : Bool :=
  state == .waitingClose || state == .openSuccess || state == .inProgress

def isTransitionToWaitingClose (state : TradeState) : Bool :=
  state == .openSuccess || state == .inProgress

def isTerminalState (state : TradeState) : Bool :=
  state == .openError || state == .checkError || state == .win || state == .loss ||
    state == .standoff || state == .refund

def validateRequest (account : AccountInfo F) (request : TradeRequest F) (nowMs : Int) :
    TradeErrorCode :=
  let timestamp := msToSec nowMs
  if request.symbol.isEmpty then .invalidSymbol
  else if !account.connectionStatus then .noConnection
  else if !account.bySymbol request.symbol timestamp then .invalidSymbol
  else if !account.byOption request.optionType timestamp then .invalidOption
  else if !account.byOrder request.orderType timestamp then .invalidOrder
  else if !account.byAccount request.accountType timestamp then .invalidAccount
  else if !account.byCurrency request.currency timestamp then .invalidCurrency
  else if !account.forTrade .tradeLimitNotExceeded request timestamp then .limitOpenTrades
  else if !account.forTrade .amountBelowMax request timestamp then .amountTooHigh
  else if !account.forTrade .amountAboveMin request timestamp then .amountTooLow
  else if !account.forTrade .refundBelowMax request timestamp then .refundTooHigh
  else if !account.forTrade .refundAboveMin request timestamp then .refundTooLow
  else if !account.forTrade .durationAvailable request timestamp then .invalidDuration
  else if !account.forTrade .expirationDateAvailable request timestamp then .invalidExpiryTime
  else if !account.forTrade .payoutAboveMin request timestamp then .payoutTooLow
  else if !account.forTrade .amountBelowBalance request timestamp then .insufficientBalance
  else .success

def determineTradeState [Zero F] [DecidableEq F] [LT F] [DecidableLT F] (result : TradeResult F)
    (request : TradeRequest F) (closePrice : F) : TradeState :=
  if result.openPrice = 0 then .standoff
  else
    match request.orderType with
    | .buy =>
        if result.openPrice < closePrice then .win
        else if closePrice < result.openPrice then .loss
        else .standoff
    | .sell =>
        if closePrice < result.openPrice then .win
        else if result.openPrice < closePrice then .loss
        else .standoff
    | .unknown => .standoff

def calculateCloseDate (result : TradeResult F) (request : TradeRequest F) : Int :=
  if 0 < result.closeDate then result.closeDate
  else
    match request.optionType with
    | .sprint =>
        if 0 < result.openDate then result.openDate + secToMs request.duration.toNat
        else result.placeDate + secToMs request.duration.toNat
    | .classic => secToMs request.expiryTime
    | .unknown => 0

/-- Marks a transaction as ended with an error: the dates, balances and state are overwritten whatever they
were. -/
def finalizeTransactionWithError (account : AccountInfo F) (t : Transaction F)
    (errorCode : TradeErrorCode) (state : TradeState) (timestamp : Int) (errorDesc : String := "") :
    Transaction F :=
  let balance := account.balance t.request timestamp
  let result :=
    { t.result with
      errorCode
      errorDesc := if errorDesc.isEmpty then errorCode.toStr else errorDesc
      sendDate := timestamp
      openDate := timestamp
      closeDate := timestamp }
  let result := ((result.setBalance balance).setOpenBalance balance).setCloseBalance balance
  let result := { result with payout := account.payout t.request timestamp }
  { t with result := result.setState state }

@[simp] theorem finalizeTransactionWithError_ref (account : AccountInfo F) (t : Transaction F)
    (code : TradeErrorCode) (state : TradeState) (timestamp : Int) (desc : String) :
    (finalizeTransactionWithError account t code state timestamp desc).ref = t.ref := rfl

@[simp] theorem finalizeTransactionWithError_tradeState (account : AccountInfo F) (t : Transaction F)
    (code : TradeErrorCode) (state : TradeState) (timestamp : Int) (desc : String) :
    (finalizeTransactionWithError account t code state timestamp desc).result.tradeState = state := rfl

@[simp] theorem cancelAsyncOperations_ref (t : Transaction F) :
    t.cancelAsyncOperations.ref = t.ref := rfl

@[simp] theorem cancelAsyncOperations_result (t : Transaction F) :
    t.cancelAsyncOperations.result = t.result := rfl

end OptionX.TradeExecution
