import OptionX.TradeExecution.Types

/-!
# The trade queue manager

`TradeQueueManager.hpp`. `process()` is four passes, each a step here, so that the broker may write a result
between any two of them; a pass reads its clock and its account information once. A step answers with the
notifications that it sends.
-/

namespace OptionX.TradeExecution

variable {F : Type}

/-- What the manager tells the rest of the platform. -/
inductive Notice (F : Type) where
  /-- `dispatch_trade_event`, with the request and the result as they are at that moment. -/
  | trade (t : Transaction F)
  | openTrades (count : Int) (trade : Option Nat)
  | tradeRequest (trade : Nat)
  | tradeStatus (trade : Nat)
  | snapshotRefreshRequest (reason : String)

structure TradeQueueManager (F : Type) where
  pendingTransactions : List (Transaction F) := []
  openTransactions : List (Transaction F) := []
  lastOrderTime : Int := 0
  hasSentOrder : Bool := false
  localOpenTrades : Int := 0
  snapshotOpenTrades : Int := 0
  snapshotUnknownCloseTrades : Int := 0
  requireOpenTradesSnapshot : Bool := false
  openTradesSnapshotReady : Bool := true
  snapshotRefreshRequested : Bool := false
  snapshotCloseDueTimesMs : List Int := []
  hasTradeStormBalance : Bool := false
  tradeStormBaseBalance : F
  tradeStormRealizedProfit : F
  lastTradeActivityMs : Int := 0
  /-- The identity that the next accepted transaction gets. -/
  nextRef : Nat := 0

def tradeStormIdleMs : Int := 15000

/-- The clocks of a pass: the wall clock and the steady clock, in milliseconds. -/
structure Clock where
  nowMs : Int
  steadyMs : Int

structure OpenTradesSnapshot where
  openTrades : Int
  closeBufferMs : Int
  closeTimesMs : List Int

/-- One quote of a price batch. -/
structure Quote (F : Type) where
  initialized : Bool
  midPrice : F

namespace TradeQueueManager

def create [Zero F] (requireOpenTradesSnapshot : Bool := false) : TradeQueueManager F where
  requireOpenTradesSnapshot := requireOpenTradesSnapshot
  openTradesSnapshotReady := !requireOpenTradesSnapshot
  tradeStormBaseBalance := 0
  tradeStormRealizedProfit := 0

/-! ## The open-trade counters -/

def currentOpenTrades (s : TradeQueueManager F) : Int := s.localOpenTrades + s.snapshotOpenTrades

def emitOpenTrades (s : TradeQueueManager F) (trade : Option Nat) : Notice F :=
  .openTrades s.currentOpenTrades trade

def isResultStateForBalance (state : TradeState) : Bool :=
  state == .win || state == .loss || state == .standoff || state == .refund

def addRealizedProfitToStorm [Add F] (s : TradeQueueManager F) (result : TradeResult F) :
    TradeQueueManager F :=
  if !isResultStateForBalance result.tradeState then s
  else { s with tradeStormRealizedProfit := s.tradeStormRealizedProfit + result.profit }

def incrementOpenTrades (s : TradeQueueManager F) (t : Transaction F) (nowMs : Int) :
    TradeQueueManager F × List (Notice F) :=
  let s := { s with localOpenTrades := s.localOpenTrades + 1, lastTradeActivityMs := nowMs }
  (s, [s.emitOpenTrades (some t.ref)])

def decrementOpenTrades [Add F] (s : TradeQueueManager F) (t : Transaction F) (nowMs : Int) :
    TradeQueueManager F × List (Notice F) :=
  if 0 < s.localOpenTrades then
    let s := s.addRealizedProfitToStorm t.result
    let s := { s with localOpenTrades := s.localOpenTrades - 1, lastTradeActivityMs := nowMs }
    (s, [s.emitOpenTrades (some t.ref)])
  else (s, [])

/-- The queue without broker-snapshot state, and whether it had any. -/
def clearSnapshotOpenTrades (s : TradeQueueManager F) : TradeQueueManager F × Bool :=
  let changed := s.snapshotOpenTrades != 0 || s.snapshotUnknownCloseTrades != 0 ||
    !s.snapshotCloseDueTimesMs.isEmpty
  ({ s with
      snapshotOpenTrades := 0, snapshotUnknownCloseTrades := 0
      snapshotRefreshRequested := false, snapshotCloseDueTimesMs := [] }, changed)

def requestSnapshotRefresh (s : TradeQueueManager F) (reason : String) :
    TradeQueueManager F × List (Notice F) :=
  if s.snapshotRefreshRequested then (s, [])
  else ({ s with snapshotRefreshRequested := true }, [.snapshotRefreshRequest reason])

def nextOpenBalance [Add F] [Zero F] (s : TradeQueueManager F) (timestampMs : Int) (accountBalance : F) :
    TradeQueueManager F × F :=
  let localQueueIdle := s.localOpenTrades ≤ 0 && s.openTransactions.isEmpty
  let idleLongEnough := s.lastTradeActivityMs ≤ 0 ||
    tradeStormIdleMs ≤ timestampMs - s.lastTradeActivityMs
  let s :=
    if !s.hasTradeStormBalance || (localQueueIdle && idleLongEnough) then
      { s with
        hasTradeStormBalance := true, tradeStormBaseBalance := accountBalance
        tradeStormRealizedProfit := 0 }
    else s
  (s, s.tradeStormBaseBalance + s.tradeStormRealizedProfit)

/-! ## Adding a trade -/

structure AddTrade (F : Type) where
  request : Option (TradeRequest F)
  platformType : Nat
  /-- The caller's functor: it may change the request and the result, and may refuse them. -/
  preprocess : TradeRequest F → TradeResult F → Option (TradeRequest F × TradeResult F)
  /-- What the trade-id provider returns, when there is one. -/
  providedTradeId : Option UInt32
  generatedTradeId : UInt32

/-- The queue after `add_trade` and whether it accepted the trade. -/
def addTrade [Zero F] (s : TradeQueueManager F) (account : AccountInfo F) (call : AddTrade F) (nowMs : Int) :
    TradeQueueManager F × Bool :=
  match call.request with
  | none => (s, false)
  | some request =>
      let request :=
        if request.accountType == .unknown then { request with accountType := account.accountType }
        else request
      let request :=
        if request.currency == .unknown then { request with currency := account.currency } else request
      let request :=
        if request.tradeId == 0 then { request with tradeId := call.providedTradeId.getD 0 }
        else request
      let request :=
        if request.tradeId == 0 then { request with tradeId := call.generatedTradeId } else request
      match call.preprocess request (request.createTradeResult nowMs call.platformType) with
      | none => (s, false)
      | some (request, result) =>
          let t : Transaction F := { ref := s.nextRef, request, result }
          ({ s with pendingTransactions := s.pendingTransactions ++ [t], nextRef := s.nextRef + 1 },
            true)

/-! ## The passes of `process` -/

def processSnapshotOpenTrades (s : TradeQueueManager F) (nowMs : Int) :
    TradeQueueManager F × List (Notice F) :=
  if s.snapshotOpenTrades ≤ 0 then (s, [])
  else if s.snapshotCloseDueTimesMs.isEmpty then
    if 0 < s.snapshotUnknownCloseTrades then s.requestSnapshotRefresh "missing-close-times" else (s, [])
  else
    -- `upper_bound` in a sorted vector: everything due is in front
    let due := s.snapshotCloseDueTimesMs.takeWhile (· ≤ nowMs)
    let closedCount : Int := due.length
    if closedCount ≤ 0 then (s, [])
    else
      let snapshotOpenTrades :=
        if s.snapshotOpenTrades ≤ closedCount then 0 else s.snapshotOpenTrades - closedCount
      let s :=
        { s with
          snapshotCloseDueTimesMs := s.snapshotCloseDueTimesMs.drop due.length
          snapshotOpenTrades
          snapshotUnknownCloseTrades := min s.snapshotUnknownCloseTrades snapshotOpenTrades }
      let emitted := s.emitOpenTrades none
      if 0 < s.snapshotOpenTrades && 0 < s.snapshotUnknownCloseTrades &&
          s.snapshotCloseDueTimesMs.isEmpty then
        let (s, refresh) := s.requestSnapshotRefresh "unknown-close-times"
        (s, emitted :: refresh)
      else (s, [emitted])

/-- Whether a pending transaction has waited for the queue timeout. -/
def expired (account : AccountInfo F) (nowMs : Int) (t : Transaction F) : Bool :=
  secToMs account.orderQueueTimeout ≤ nowMs - t.result.placeDate

/-- Finalizes the expired transactions; unlike the other ways out of the queue it notifies nobody. -/
def handleCanceledTransactions (account : AccountInfo F) (nowMs : Int)
    (canceled : List (Transaction F)) : List (Transaction F) × List (Notice F) :=
  (canceled.map (fun t =>
    finalizeTransactionWithError account t.cancelAsyncOperations .longQueueWait .openError nowMs), [])

/-- The next transaction to send, with the rest of the queue. -/
def popNextTransaction (s : TradeQueueManager F) (account : AccountInfo F) (steadyMs : Int) :
    Option (Transaction F × List (Transaction F)) :=
  if s.requireOpenTradesSnapshot && !s.openTradesSnapshotReady && account.connectionStatus then none
  else
    match s.pendingTransactions with
    | [] => none
    | t :: rest =>
        if !s.hasSentOrder || max 0 account.orderIntervalMs ≤ steadyMs - s.lastOrderTime then
          if account.openTrades t.request < account.maxTrades t.request then some (t, rest) else none
        else none

/-- A validated transaction as it is sent. -/
def sent (account : AccountInfo F) (clock : Clock) (openBalance : F) (t : Transaction F) : Transaction F :=
  let result := { t.result.setState .waitingOpen with sendDate := clock.nowMs }
  let result := (result.setBalance (account.balance t.request 0)).setOpenBalance openBalance
  { t with result := { result with payout := account.payout t.request (msToSec clock.nowMs) } }

/-- Sends a validated transaction to the broker. -/
def sendOrder [Add F] [Zero F] (s : TradeQueueManager F) (account : AccountInfo F) (clock : Clock)
    (t : Transaction F) : TradeQueueManager F × List (Notice F) :=
  let (s, openBalance) := s.nextOpenBalance clock.nowMs (account.balance t.request 0)
  let t := sent account clock openBalance t
  let s := { s with lastOrderTime := clock.steadyMs, hasSentOrder := true }
  let (s, opened) := s.incrementOpenTrades t clock.nowMs
  ({ s with openTransactions := s.openTransactions ++ [t] }, opened ++ [.trade t, .tradeRequest t.ref])

def processPendingTransactions [Add F] [Zero F] (s : TradeQueueManager F) (account : AccountInfo F)
    (clock : Clock) : TradeQueueManager F × List (Notice F) :=
  if s.pendingTransactions.isEmpty then (s, [])
  else
    let canceled := s.pendingTransactions.filter (expired account clock.nowMs)
    let waiting := s.pendingTransactions.filter (fun t => !expired account clock.nowMs t)
    let s := { s with pendingTransactions := waiting }
    let (s, notices) :=
      match s.popNextTransaction account clock.steadyMs with
      | none => (s, [])
      | some (t, rest) =>
          let s := { s with pendingTransactions := rest }
          let errorCode := validateRequest account t.request clock.nowMs
          let t := { t with result := { t.result with errorCode } }
          if errorCode == .success then s.sendOrder account clock t
          else (s, [.trade (finalizeTransactionWithError account t errorCode .openError clock.nowMs)])
    (s, notices ++ (handleCanceledTransactions account clock.nowMs canceled).2)

/-- What a pass does with one open transaction: the queue's counters, the transaction if it stays open, and
the notifications. -/
structure Handled (F : Type) where
  queue : TradeQueueManager F
  kept : Option (Transaction F)
  notices : List (Notice F)

/-- A pass over the open transactions, in their order. -/
def each (handle : TradeQueueManager F → Transaction F → Handled F) (s : TradeQueueManager F) :
    List (Transaction F) → TradeQueueManager F × List (Transaction F) × List (Notice F)
  | [] => (s, [], [])
  | t :: ts =>
      let h := handle s t
      let (s, kept, notices) := each handle h.queue ts
      (s, h.kept.toList ++ kept, h.notices ++ notices)

def eachOpen (handle : TradeQueueManager F → Transaction F → Handled F) (s : TradeQueueManager F) :
    TradeQueueManager F × List (Notice F) :=
  let (s', kept, notices) := s.each handle s.openTransactions
  ({ s' with openTransactions := kept }, notices)

def handleClosingError [Add F] (s : TradeQueueManager F) (account : AccountInfo F) (t : Transaction F)
    (nowMs : Int) : Handled F :=
  let t := t.cancelAsyncOperations
  let (s, closed) := s.decrementOpenTrades t nowMs
  let t := finalizeTransactionWithError account t t.result.errorCode .checkError nowMs t.result.errorDesc
  ⟨s, none, closed ++ [.trade t]⟩

def closing [Add F] (account : AccountInfo F) (nowMs : Int) (s : TradeQueueManager F) (t : Transaction F) :
    Handled F :=
  if t.result.tradeState == .openSuccess then
    ⟨s, some { t with result := t.result.setState .inProgress }, [.trade t]⟩
  else if !isClosableState t.result.tradeState then ⟨s, some t, []⟩
  else
    let closeDate := calculateCloseDate t.result t.request
    if closeDate == 0 then
      let errorCode :=
        if t.request.optionType == .sprint then .invalidDuration else .invalidExpiryTime
      s.handleClosingError account { t with result := { t.result with errorCode } } nowMs
    else if nowMs < closeDate then ⟨s, some t, []⟩
    else if closeDate + secToMs account.responseTimeout < nowMs then
      s.handleClosingError account { t with result := { t.result with errorCode := .longResponseWait } }
        nowMs
    else if isTransitionToWaitingClose t.result.tradeState then
      let t := { t with result := t.result.setState .waitingClose }
      ⟨s, some t, [.trade t, .tradeStatus t.ref]⟩
    else ⟨s, some t, []⟩

def processClosingTransactions [Add F] (s : TradeQueueManager F) (account : AccountInfo F) (nowMs : Int) :
    TradeQueueManager F × List (Notice F) :=
  s.eachOpen (closing account nowMs)

def finalizing [Add F] (nowMs : Int) (s : TradeQueueManager F) (t : Transaction F) : Handled F :=
  if isTerminalState t.result.tradeState then
    let t := t.cancelAsyncOperations
    let (s, closed) := s.decrementOpenTrades t nowMs
    ⟨s, none, closed ++ [.trade t]⟩
  else ⟨s, some t, []⟩

def processFinalizingTransactions [Add F] (s : TradeQueueManager F) (nowMs : Int) :
    TradeQueueManager F × List (Notice F) :=
  s.eachOpen (finalizing nowMs)

/-! ## The end of all trades -/

/-- The forced end of a pending transaction. -/
def rejectPending (account : AccountInfo F) (nowMs : Int) (t : Transaction F) : Transaction F :=
  finalizeTransactionWithError account t.cancelAsyncOperations .clientForcedClose .openError nowMs

/-- The forced end of an open transaction, whatever its result already holds. -/
def forceClose [Add F] (account : AccountInfo F) (nowMs : Int) (s : TradeQueueManager F) (t : Transaction F) :
    Handled F :=
  let t := finalizeTransactionWithError account t.cancelAsyncOperations .clientForcedClose .checkError
    nowMs
  let (s, closed) := s.decrementOpenTrades t nowMs
  ⟨s, none, closed ++ [.trade t]⟩

def finalizeAllTrades [Add F] [Zero F] (s : TradeQueueManager F) (account : AccountInfo F) (nowMs : Int) :
    TradeQueueManager F × List (Notice F) :=
  let rejected := s.pendingTransactions.map (fun t => Notice.trade (rejectPending account nowMs t))
  let s := { s with pendingTransactions := [] }
  let (s, closed) := s.eachOpen (forceClose account nowMs)
  let (s, changed) := s.clearSnapshotOpenTrades
  let emitted := if changed then [s.emitOpenTrades none] else []
  ({ s with
      hasSentOrder := false, hasTradeStormBalance := false, tradeStormBaseBalance := 0
      tradeStormRealizedProfit := 0, lastTradeActivityMs := nowMs }, rejected ++ closed ++ emitted)

/-! ## Events -/

/-- One open transaction at a price update; `batches` finds the quotes of a symbol. -/
def priced [Zero F] [DecidableEq F] [LT F] [DecidableLT F] (batches : String → Option (List (Quote F)))
    (s : TradeQueueManager F) (t : Transaction F) : Handled F :=
  if t.result.tradeState != .openSuccess && t.result.tradeState != .inProgress then ⟨s, some t, []⟩
  else
    let opened := if t.result.tradeState == .openSuccess then [Notice.trade t] else []
    let t :=
      if t.result.tradeState == .openSuccess then { t with result := t.result.setState .inProgress }
      else t
    match (batches t.request.symbol).bind List.getLast? with
    | none => ⟨s, some t, opened⟩
    | some quote =>
        if !quote.initialized then ⟨s, some t, opened⟩
        else
          let result := { t.result with closePrice := quote.midPrice }
          let result :=
            { result with liveState := determineTradeState result t.request quote.midPrice }
          let t := { t with result }
          ⟨s, some t, opened ++ [.trade t]⟩

def onPriceUpdate [Zero F] [DecidableEq F] [LT F] [DecidableLT F] (s : TradeQueueManager F)
    (batches : String → Option (List (Quote F))) : TradeQueueManager F × List (Notice F) :=
  s.eachOpen (priced batches)

def onDisconnectRequest [Add F] [Zero F] (s : TradeQueueManager F) (account : AccountInfo F) (nowMs : Int) :
    TradeQueueManager F × List (Notice F) :=
  let s := if s.requireOpenTradesSnapshot then { s with openTradesSnapshotReady := false } else s
  s.finalizeAllTrades account nowMs

def int64Max : Int := 2 ^ 63 - 1

def addSnapshotCloseBuffer (closeTimeMs closeBufferMs : Int) : Int :=
  if closeBufferMs ≤ 0 then closeTimeMs
  else if int64Max - closeBufferMs < closeTimeMs then int64Max
  else closeTimeMs + closeBufferMs

/-- Whether a broker snapshot is accepted: only while the local queue is idle. -/
def acceptsSnapshot (s : TradeQueueManager F) : Bool :=
  !((s.openTradesSnapshotReady && !s.pendingTransactions.isEmpty) ||
    !s.openTransactions.isEmpty || 0 < s.localOpenTrades)

def onOpenTradesSnapshot (s : TradeQueueManager F) (event : OpenTradesSnapshot) :
    TradeQueueManager F × List (Notice F) :=
  let s := { s with snapshotRefreshRequested := false }
  if !s.acceptsSnapshot then s.requestSnapshotRefresh "local-queue-active"
  else
    let snapshotOpenTrades := max 0 event.openTrades
    let closeBufferMs := max 0 event.closeBufferMs
    let known :=
      if 0 < snapshotOpenTrades then
        (event.closeTimesMs.filter (0 < ·)).map (fun time => addSnapshotCloseBuffer time closeBufferMs)
      else []
    let due := (known.mergeSort (· ≤ ·)).take snapshotOpenTrades.toNat
    let s : TradeQueueManager F :=
      { s with
        openTradesSnapshotReady := true
        snapshotOpenTrades
        snapshotCloseDueTimesMs := due
        snapshotUnknownCloseTrades := max 0 (snapshotOpenTrades - due.length) }
    let emitted := s.emitOpenTrades none
    if 0 < s.snapshotUnknownCloseTrades then
      let (s, refresh) := s.requestSnapshotRefresh "unknown-close-times"
      (s, emitted :: refresh)
    else (s, [emitted])

/-- Availability: losing it forgets the snapshot without telling anyone. -/
def onSnapshotAvailability (s : TradeQueueManager F) (ready : Bool) : TradeQueueManager F :=
  if !s.requireOpenTradesSnapshot then s
  else
    let s := { s with openTradesSnapshotReady := ready }
    if ready then s else s.clearSnapshotOpenTrades.1

/-! ## Steps -/

/-- What can happen to the queue; `broker` is the broker component writing the result of an open
transaction. -/
inductive Event (F : Type) where
  | addTrade (account : AccountInfo F) (call : AddTrade F) (nowMs : Int)
  | processSnapshot (nowMs : Int)
  | processPending (account : AccountInfo F) (clock : Clock)
  | processClosing (account : AccountInfo F) (nowMs : Int)
  | processFinalizing (nowMs : Int)
  | finalizeAll (account : AccountInfo F) (nowMs : Int)
  | priceUpdate (batches : String → Option (List (Quote F)))
  | disconnectRequest (account : AccountInfo F) (nowMs : Int)
  | openTradesSnapshot (event : OpenTradesSnapshot)
  | snapshotAvailability (ready : Bool)
  | broker (ref : Nat) (write : TradeResult F → TradeResult F)

/-- The broker's write to the result of an open transaction. -/
def brokerWrite (s : TradeQueueManager F) (ref : Nat) (write : TradeResult F → TradeResult F) :
    TradeQueueManager F :=
  { s with
    openTransactions := s.openTransactions.map (fun t =>
      if t.ref = ref then { t with result := write t.result } else t) }

variable [Zero F] [Add F] [DecidableEq F] [LT F] [DecidableLT F]

def step (s : TradeQueueManager F) : Event F → TradeQueueManager F × List (Notice F)
  | .addTrade account call nowMs => ((s.addTrade account call nowMs).1, [])
  | .processSnapshot nowMs => s.processSnapshotOpenTrades nowMs
  | .processPending account clock => s.processPendingTransactions account clock
  | .processClosing account nowMs => s.processClosingTransactions account nowMs
  | .processFinalizing nowMs => s.processFinalizingTransactions nowMs
  | .finalizeAll account nowMs => s.finalizeAllTrades account nowMs
  | .priceUpdate batches => s.onPriceUpdate batches
  | .disconnectRequest account nowMs => s.onDisconnectRequest account nowMs
  | .openTradesSnapshot event => s.onOpenTradesSnapshot event
  | .snapshotAvailability ready => (s.onSnapshotAvailability ready, [])
  | .broker ref write => (s.brokerWrite ref write, [])

/-- The four passes that one `process()` call takes. -/
def processEvents (account : AccountInfo F) (clock : Clock) : List (Event F) :=
  [.processSnapshot clock.nowMs, .processPending account clock, .processClosing account clock.nowMs,
    .processFinalizing clock.nowMs]

end TradeQueueManager

end OptionX.TradeExecution
