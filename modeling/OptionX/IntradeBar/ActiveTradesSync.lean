import OptionX.TradeExecution.Types
import OptionX.Utils.TaskManager

/-!
# Active trades synchronisation

`ActiveTradesSyncManager.hpp`. The manager shares the account with other components, which change it between its
steps; a request that it sends is answered by its callback, at any later time and any number of times. The task
manager is its own and is processed by its thread alone, one cycle at a time. What the queue publishes when it is
told of a snapshot reaches the manager as a further event.
-/

namespace OptionX.IntradeBar

open TradeExecution (AccountType)
open TradingSystem (CurrencyType)
open Utils (Task)

inductive AccountUpdateStatus where
  | unknown | balanceUpdated | accountTypeChanged | currencyChanged | openTradesChanged | connecting | connected
  | disconnected | failedToConnect
  deriving DecidableEq

/-- The fields of `AccountInfoData` that the manager reads. -/
structure AccountInfoData where
  connect : Bool := false
  userId : Int := 0
  accountType : AccountType := .unknown
  currency : CurrencyType := .unknown
  deriving DecidableEq

/-- The fields of `AuthData` that the manager reads. -/
structure AuthData where
  activeTradesCloseBufferMs : Int := 1000
  activeTradesSyncPeriodMs : Int := 15000
  accountType : AccountType := .unknown
  currency : CurrencyType := .unknown
  deriving DecidableEq

structure AccountContext where
  userId : Int
  accountType : AccountType
  currency : CurrencyType
  generation : Nat
  deriving DecidableEq

/-- A request sent, with what its callback has captured. -/
structure SnapshotRequest where
  reason : String
  generation : Nat
  accountContext : AccountContext
  deriving DecidableEq

/-- The delayed task of `schedule_sync`. -/
structure RefreshTask where
  task : Task
  reason : String
  deriving DecidableEq

/-- The task's turn in a cycle: the task after it, and whether its callback is run. -/
def RefreshTask.turn (nowMs : Int) (isShutdown : Bool) (t : RefreshTask) : Task × Bool :=
  (if isShutdown then { t.task with shutdown := true } else t.task).process nowMs

structure ActiveTradesSyncManager where
  accountInfo : AccountInfoData := {}
  activeTradesCloseBufferMs : Int := 1000
  activeTradesSyncPeriodMs : Int := 15000
  syncInProgress : Bool := false
  refreshScheduled : Bool := false
  syncGeneration : Nat := 0
  activeSyncGeneration : Nat := 0
  accountContextGeneration : Nat := 0
  /-- The pending and the running tasks of the task manager. -/
  pendingTasks : List RefreshTask := []
  tasks : List RefreshTask := []
  tasksShutdown : Bool := false
  tasksAdded : Nat := 0
  /-- Every request sent so far. -/
  requests : List SnapshotRequest := []
  deriving DecidableEq

namespace ActiveTradesSyncManager

inductive Notice where
  /-- `OpenTradesSnapshotAvailabilityEvent`. -/
  | availability (ready : Bool) (reason : String)
  /-- `request_active_trades_snapshot_result`. -/
  | requested (request : SnapshotRequest)
  /-- `OpenTradesSnapshotEvent`. -/
  | snapshot (openTrades : Nat) (closeTimesMs : List Int) (closeBufferMs : Int)
  deriving DecidableEq

inductive Action where
  /-- Another component changes the account. -/
  | account (accountInfo : AccountInfoData)
  | authData (authData : AuthData)
  | restartAuth
  | disconnectRequest
  | accountInfoUpdate (status : AccountUpdateStatus)
  | refreshRequest (reason : String)
  | process
  /-- A request is answered: the close times of the active trades, or a failure. -/
  | reply (request : Nat) (closeTimesMs : Option (List Int))
  | shutdown

structure Event where
  nowMs : Int
  action : Action

variable (nowMs : Int)

/-- `add_delayed_task`, with the callback of `schedule_sync`. -/
def addDelayedTask (reason : String) (s : ActiveTradesSyncManager) : ActiveTradesSyncManager × Bool :=
  if s.tasksShutdown then (s, false)
  else
    let task := Task.create s.tasksAdded .delayedSingle nowMs s.activeTradesSyncPeriodMs 0 0
    ({ s with pendingTasks := s.pendingTasks ++ [⟨task, reason⟩], tasksAdded := s.tasksAdded + 1 }, true)

def scheduleSync (reason : String) (s : ActiveTradesSyncManager) : ActiveTradesSyncManager :=
  if s.refreshScheduled then s
  else if !s.accountInfo.connect then s
  else
    let r := s.addDelayedTask nowMs reason
    { r.1 with refreshScheduled := r.2 }

def captureAccountContext (s : ActiveTradesSyncManager) : AccountContext where
  userId := s.accountInfo.userId
  accountType := s.accountInfo.accountType
  currency := s.accountInfo.currency
  generation := s.accountContextGeneration

def isAccountContextCurrent (expected : AccountContext) (s : ActiveTradesSyncManager) : Bool :=
  expected.generation = s.accountContextGeneration && expected.userId = s.accountInfo.userId &&
    expected.accountType = s.accountInfo.accountType && expected.currency = s.accountInfo.currency

def requestSync (reason : String) (s : ActiveTradesSyncManager) : ActiveTradesSyncManager × List Notice :=
  if s.syncInProgress then (s.scheduleSync nowMs reason, [])
  else if !s.accountInfo.connect then (s, [])
  else
    let generation := s.syncGeneration + 1
    let request : SnapshotRequest := ⟨reason, generation, s.captureAccountContext⟩
    ({ s with
      syncInProgress := true
      refreshScheduled := false
      syncGeneration := generation
      activeSyncGeneration := generation
      requests := s.requests ++ [request] }, [.availability false reason, .requested request])

/-- The request is no longer current. -/
def endRequest (s : ActiveTradesSyncManager) : ActiveTradesSyncManager :=
  { s with activeSyncGeneration := 0, syncInProgress := false }

/-- The callback of a request. -/
def onReply (request : SnapshotRequest) (closeTimesMs : Option (List Int)) (s : ActiveTradesSyncManager) :
    ActiveTradesSyncManager × List Notice :=
  if request.generation ≠ s.activeSyncGeneration then (s, [])
  else if !s.accountInfo.connect then (s.endRequest, [])
  else if !s.isAccountContextCurrent request.accountContext then (s.endRequest, [])
  else
    match closeTimesMs with
    | none => (s.endRequest.scheduleSync nowMs "snapshot-failed", [])
    | some closeTimesMs =>
        (s.endRequest, [.snapshot closeTimesMs.length (closeTimesMs.filter (0 < ·)) s.activeTradesCloseBufferMs])

/-- The callback of the delayed task. -/
def onRefresh (isShutdown : Bool) (reason : String) (s : ActiveTradesSyncManager) :
    ActiveTradesSyncManager × List Notice :=
  let s := { s with refreshScheduled := false }
  if isShutdown then (s, []) else s.requestSync nowMs reason

/-- The turns of the running tasks in a cycle, and those that stay. -/
def runTasks : List RefreshTask → ActiveTradesSyncManager → ActiveTradesSyncManager × List RefreshTask × List Notice
  | [], s => (s, [], [])
  | t :: todo, s =>
      let turn := t.turn nowMs s.tasksShutdown
      let called := if turn.2 then s.onRefresh nowMs turn.1.shutdown t.reason else (s, [])
      let rest := runTasks todo called.1
      (rest.1, if turn.1.completed then rest.2.1 else { t with task := turn.1 } :: rest.2.1, called.2 ++ rest.2.2)

/-- `process` of the task manager. -/
def processTasks (s : ActiveTradesSyncManager) : ActiveTradesSyncManager × List Notice :=
  let r := runTasks nowMs (s.tasks ++ s.pendingTasks) { s with pendingTasks := [], tasks := [] }
  ({ r.1 with tasks := r.2.1 }, r.2.2)

/-- `shutdown` of the task manager. -/
def shutdownTasks (s : ActiveTradesSyncManager) : ActiveTradesSyncManager × List Notice :=
  let r := processTasks nowMs { s with tasksShutdown := true }
  ({ r.1 with tasksShutdown := false }, r.2)

def resetSyncState (s : ActiveTradesSyncManager) : ActiveTradesSyncManager :=
  { s with syncInProgress := false, activeSyncGeneration := 0, syncGeneration := s.syncGeneration + 1 }

def invalidateAccountContext (reason : String) (s : ActiveTradesSyncManager) :
    ActiveTradesSyncManager × List Notice :=
  let r := shutdownTasks nowMs { s with accountContextGeneration := s.accountContextGeneration + 1 }
  (resetSyncState { r.1 with refreshScheduled := false }, r.2 ++ [.availability false reason])

/-- The auth data ask for other settings than those of a connected account. -/
def settingsDiffer (authData : AuthData) (accountInfo : AccountInfoData) : Bool :=
  accountInfo.connect &&
    (authData.accountType ≠ .unknown && authData.accountType ≠ accountInfo.accountType ||
      authData.currency ≠ .unknown && authData.currency ≠ accountInfo.currency)

def configure (authData : AuthData) (s : ActiveTradesSyncManager) : ActiveTradesSyncManager :=
  { s with
    activeTradesCloseBufferMs := authData.activeTradesCloseBufferMs
    activeTradesSyncPeriodMs := authData.activeTradesSyncPeriodMs }

def onAuthData (authData : AuthData) (s : ActiveTradesSyncManager) : ActiveTradesSyncManager × List Notice :=
  let s := s.configure authData
  if settingsDiffer authData s.accountInfo then
    s.invalidateAccountContext nowMs "auth-data-account-context-change"
  else (s, [])

def onAccountInfoUpdate (status : AccountUpdateStatus) (s : ActiveTradesSyncManager) :
    ActiveTradesSyncManager × List Notice :=
  match status with
  | .connected => s.requestSync nowMs "connected"
  | .accountTypeChanged | .currencyChanged =>
      let invalidated := s.invalidateAccountContext nowMs "account-settings-changed"
      let requested := invalidated.1.requestSync nowMs "account-settings-changed"
      (requested.1, invalidated.2 ++ requested.2)
  | .disconnected | .failedToConnect => s.invalidateAccountContext nowMs "account-disconnected"
  | .unknown | .balanceUpdated | .openTradesChanged | .connecting => (s, [])

def step (s : ActiveTradesSyncManager) (e : Event) : ActiveTradesSyncManager × List Notice :=
  match e.action with
  | .account accountInfo => ({ s with accountInfo }, [])
  | .authData authData => s.onAuthData e.nowMs authData
  | .restartAuth => s.requestSync e.nowMs "restart-auth"
  | .disconnectRequest => s.invalidateAccountContext e.nowMs "disconnect-request"
  | .accountInfoUpdate status => s.onAccountInfoUpdate e.nowMs status
  | .refreshRequest reason => (s.scheduleSync e.nowMs (if reason = "" then "refresh-request" else reason), [])
  | .process => s.processTasks e.nowMs
  | .reply request closeTimesMs =>
      match s.requests[request]? with
      | none => (s, [])
      | some request => s.onReply e.nowMs request closeTimesMs
  | .shutdown =>
      let r := s.shutdownTasks e.nowMs
      (resetSyncState { r.1 with refreshScheduled := false }, r.2)

end ActiveTradesSyncManager

end OptionX.IntradeBar
