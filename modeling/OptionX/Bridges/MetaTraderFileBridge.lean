import OptionX.Bridges.IdempotencyStore
import OptionX.Bridges.MetaTraderFileProtocol
import OptionX.Lib.OrderedMap
import OptionX.Lib.Run
import OptionX.TradingView.ExtensionBridge

/-!
# The file bridge

`process` of `MetaTraderFileBridge.hpp` with the files it reads and writes. Each event is one critical section, one call to
the outside, a change of the command log by its writers, or the end of the process, after which the files are all there is.
The event log holds the replies; the reports, the account state and the snapshot are left out.
-/

namespace OptionX.Bridges.MetaTraderFile

open Lib (OrderedMap)
open MetaTraderFileProtocol (Bytes NdjsonRecord NdjsonSequenceReadResult SeqValue readNdjsonFromOffset
  readNdjsonSequenceWindow)
open TradingView (CallResult Json Text isDigit text)

variable {F : Type}

structure MetaTraderFileBridgeConfig where
  bridgeId : Nat
  maxLineBytes : Nat := 64 * 1024
  maxCommandLogBytes : Nat := 8 * 1024 * 1024
  maxScannedRecordsPerPoll : Nat := 256
  maxReturnedRecordsPerPoll : Nat := 64
  maxIdempotencyStateBytes : Nat := 1024 * 1024
  maxIdempotencyRecords : Nat := 4096
  idempotencyRetentionMs : UInt64 := 24 * 60 * 60 * 1000

/-- The JSON library, and the canonical form of a trade command, which may not exist. -/
structure Library (F : Type) where
  /-- `dump(-1)`. -/
  dump : Json F → Text
  parse : Text → Except String (Json F)
  /-- The length of `dump(2)`. -/
  dumpSize : Json F → Nat
  /-- The text of a `type_error`. -/
  typeError : Text
  /-- The fingerprint of `canonical_trade_command`, for a direct `trade.open` or not. -/
  fingerprint : Json F → Bool → Except Text Text
  /-- `attach_trade_signal`. -/
  attach : Json F → Bool → Except Text Unit

/-! ## Values -/

def objectMemberOrEmpty (value : Json F) (key : String) : Json F :=
  match value.member? (text key) with
  | some (.object members) => .object members
  | _ => .object []

def integerText (value : Int) : Text := text (toString value)

def stringValue (value : Json F) (key : String) : Text :=
  match value.member? (text key) with
  | some (.string result) => result
  | some (.integer result) => integerText result.toInt
  | some (.unsigned result) => integerText result.toInt64.toInt
  | _ => []

def trimAsciiCopy (value : Text) : Text := (value.dropWhile TradingView.isSpace).rdropWhile TradingView.isSpace

/-- `std::stoll` throws where there is no digit, and where the number is too large. -/
def strictTextToInt64 (value : Text) (fieldName : String) : Except Text Int :=
  let trimmed := trimAsciiCopy value
  let unsigned := TradingView.afterSign trimmed
  if trimmed = [] then .error (text (fieldName ++ " must not be empty."))
  else
    match TradingView.stoll (trimmed.take (trimmed.length - unsigned.length) ++ unsigned.takeWhile isDigit) with
    | none => .error (text "stoll")
    | some number =>
        if unsigned.takeWhile isDigit = [] then .error (text "stoll")
        else if (unsigned.takeWhile isDigit).length ≠ unsigned.length then
          .error (text (fieldName ++ " must be an integer value."))
        else .ok number

def int64Value (value : Json F) (key : String) (fallback : Int) : Except Text Int :=
  match value.member? (text key) with
  | none => .ok fallback
  | some (.integer result) => .ok result.toInt
  | some (.unsigned result) => .ok result.toInt64.toInt
  | some (.string result) => strictTextToInt64 result key
  | some _ => .error (text (key ++ " must be an integer value."))

def contextIdempotencyKey (params : Json F) : Text :=
  stringValue (objectMemberOrEmpty params "context") "idempotency_key"

def contextValidUntilMs (params : Json F) : Except Text Int :=
  int64Value (objectMemberOrEmpty params "context") "valid_until_ms" 0

/-! ## Pruning the idempotency state -/

namespace IdempotencyState

def removeStaleRequestIndex (state : IdempotencyState F) : IdempotencyState F :=
  { state with requestIndex := state.requestIndex.filter fun _ storageKey => state.known storageKey }

def ageMs (nowMs evictedAtMs : UInt64) : UInt64 := if evictedAtMs ≤ nowMs then nowMs - evictedAtMs else 0

def isExpired (retentionMs nowMs : UInt64) (tombstone : IdempotencyTombstone F) : Bool :=
  tombstone.evictedAtMs = 0 || retentionMs ≤ ageMs nowMs tombstone.evictedAtMs

def pruneExpiredTombstones (retentionMs nowMs : UInt64) (state : IdempotencyState F) : IdempotencyState F :=
  let tombstones := state.tombstones.filter fun _ tombstone => !isExpired retentionMs nowMs tombstone
  { state with tombstones }.removeStaleRequestIndex

def isInDoubt (result : Json F) : Bool := stringValue result "status" = text "in_doubt"

def lastUse (record : IdempotencyRecord F) : UInt64 :=
  if record.updatedAtMs ≠ 0 then record.updatedAtMs else record.createdAtMs

/-- The loop over the records: the first one with the least last use. -/
def findOldest (oldest : Option (Text × IdempotencyRecord F)) :
    List (Text × IdempotencyRecord F) → Option (Text × IdempotencyRecord F)
  | [] => oldest
  | entry :: entries =>
      if isInDoubt entry.2.result then findOldest oldest entries
      else
        match oldest with
        | none => findOldest (some entry) entries
        | some first => findOldest (if lastUse entry.2 < lastUse first.2 then some entry else some first) entries

def eraseOldestRecord (nowMs : UInt64) (state : IdempotencyState F) : Except Text (IdempotencyState F) :=
  if state.records.entries = [] then .ok state
  else
    match findOldest none state.records.entries with
    | none => .error (text "MetaTrader file bridge idempotency state is full of in_doubt operations.")
    | some (storageKey, record) =>
        .ok { state with
          tombstones := state.tombstones.assign storageKey
            { payloadFingerprint := record.payloadFingerprint, result := record.result, evictedAtMs := nowMs }
          records := state.records.erase storageKey }

/-- So many records are erased; the clock is read for each. -/
def eraseRecords (clock : Nat → UInt64) : Nat → Nat → IdempotencyState F → Except Text (IdempotencyState F)
  | 0, _, state => .ok state
  | count + 1, reading, state => do
      let state ← eraseOldestRecord (clock reading) state
      eraseRecords clock count (reading + 1) state

/-- The loop that shrinks the document, with a bound on its rounds. -/
def shrink (config : MetaTraderFileBridgeConfig) (library : Library F) (clock : Nat → UInt64) :
    Nat → Nat → IdempotencyState F → Except Text (IdempotencyState F)
  | 0, _, state => .ok state
  | rounds + 1, reading, state =>
      if config.maxIdempotencyStateBytes < library.dumpSize (makeIdempotencyStateDocument state) ∧
          1 < state.records.entries.length then do
        let state ← eraseOldestRecord (clock reading) state
        shrink config library clock rounds (reading + 2)
          (state.pruneExpiredTombstones config.idempotencyRetentionMs (clock (reading + 1)))
      else .ok state

/-- The state that `write_idempotency_records_locked` writes. -/
def toWrite (config : MetaTraderFileBridgeConfig) (library : Library F) (clock : Nat → UInt64)
    (state : IdempotencyState F) : Except Text (IdempotencyState F) := do
  let state := state.pruneExpiredTombstones config.idempotencyRetentionMs (clock 0)
  let excess := state.records.entries.length - config.maxIdempotencyRecords
  let state ← eraseRecords clock excess 1 state
  let state ← shrink config library clock state.records.entries.length (1 + excess) state
  if config.maxIdempotencyStateBytes < library.dumpSize (makeIdempotencyStateDocument state) then
    .error (text "MetaTrader file bridge idempotency state exceeds configured byte limit.")
  else .ok state

end IdempotencyState

/-! ## The files -/

structure Disk (F : Type) where
  commandsLog : Option Bytes := none
  idempotencyState : Option (Json F) := none
  commandsCheckpoint : Option (Json F) := none

/-- The state and the files after a write that replaces the file or throws. -/
def writeIdempotencyRecords (config : MetaTraderFileBridgeConfig) (library : Library F) (clock : Nat → UInt64)
    (written : Except Text Unit) (state : IdempotencyState F) (disk : Disk F) :
    Except Text (IdempotencyState F × Disk F) := do
  let state ← state.toWrite config library clock
  let () ← written
  return (state, { disk with idempotencyState := some (makeIdempotencyStateDocument state) })

/-- The state with a result, before it is written. -/
def IdempotencyState.withResult (state : IdempotencyState F) (storageKey requestKey fingerprint : Text) (result : Json F)
    (nowMs : UInt64) : IdempotencyState F :=
  let requestIndex := if requestKey = [] then state.requestIndex else state.requestIndex.assign requestKey storageKey
  let record : IdempotencyRecord F :=
    match state.records.find? storageKey with
    | none => { payloadFingerprint := fingerprint, result, createdAtMs := nowMs, updatedAtMs := nowMs }
    | some existing =>
        { payloadFingerprint := fingerprint, result
          createdAtMs := if existing.createdAtMs = 0 then nowMs else existing.createdAtMs
          updatedAtMs := nowMs }
  { state with requestIndex, records := state.records.assign storageKey record }

/-- Where the write fails, the state is as it was before. -/
def storeIdempotencyResult (config : MetaTraderFileBridgeConfig) (library : Library F) (clock : Nat → UInt64)
    (written : Except Text Unit) (storageKey requestKey fingerprint : Text) (result : Json F)
    (state : IdempotencyState F) (disk : Disk F) : Except Text (IdempotencyState F × Disk F) :=
  if storageKey = [] then .ok (state, disk)
  else
    writeIdempotencyRecords config library (fun i => clock (i + 1)) written
      (state.withResult storageKey requestKey fingerprint result (clock 0)) disk

/-! ## The runtime -/

/-- What is lost when the process ends. -/
structure Runtime (F : Type) where
  idempotency : IdempotencyState F := {}
  lastCommandFileSeq : UInt64 := 0
  commandScanOffset : Nat := 0
  /-- Where it is known. -/
  commandFirstFileSeq : Option UInt64 := none

def readLastFileSeqCheckpoint : Option (Json F) → Except String UInt64
  | none => .ok 0
  | some checkpoint =>
      match checkpoint.member? (text "last_file_seq") with
      | none => .error "MetaTrader file bridge checkpoint is missing last_file_seq"
      | some (.unsigned value) => .ok value
      | some (.integer value) =>
          if 0 ≤ value then .ok value.toUInt64
          else .error "MetaTrader file bridge checkpoint last_file_seq must be a non-negative integer"
      | some _ => .error "MetaTrader file bridge checkpoint last_file_seq must be a non-negative integer"

def makeLogCheckpoint (lastFileSeq : UInt64) : Json F := .object [(text "last_file_seq", .unsigned lastFileSeq)]

def startRuntime (config : MetaTraderFileBridgeConfig) (library : Library F) (disk : Disk F) :
    Except String (Runtime F) := do
  let checkpoint ← readLastFileSeqCheckpoint disk.commandsCheckpoint
  if (disk.idempotencyState.map library.dumpSize).any (config.maxIdempotencyStateBytes < ·) then
    .error "MetaTrader file transport JSON exceeds configured byte limit."
  else
    let idempotency ← readIdempotencyState "" disk.idempotencyState
    return { idempotency, lastCommandFileSeq := max checkpoint idempotency.processedThroughFileSeq }

/-! ## The command log -/

def seqValue : Json F → SeqValue
  | .unsigned value => .unsigned value
  | .integer value => .integer value
  | _ => .other

def Library.log (library : Library F) : MetaTraderFileProtocol.Json (Json F) where
  dump := library.dump
  parse := library.parse
  findFileSeq := fun document => (document.member? (text "file_seq")).map seqValue

structure CommandLogPrefixState where
  sawCompleteLine : Bool
  scannedRecords : Nat
  firstFileSeq : Option UInt64

def commandLogPrefixState (config : MetaTraderFileBridgeConfig) (library : Library F) (file : Option Bytes) :
    Except String CommandLogPrefixState := do
  let first ← readNdjsonFromOffset library.log file 0 config.maxLineBytes 1
  let batch ←
    if first.records.isEmpty ∧ !first.malformedRecords.isEmpty ∧ 1 < config.maxScannedRecordsPerPoll then
      readNdjsonFromOffset library.log file 0 config.maxLineBytes config.maxScannedRecordsPerPoll
    else .ok first
  return {
    sawCompleteLine := !batch.records.isEmpty || !batch.malformedRecords.isEmpty
    scannedRecords := batch.scannedRecords
    firstFileSeq := batch.records.head?.map (·.fileSeq) }

/-- What the prefix of the log says of the offset, and whether the offset went back. -/
def checkPrefix (runtime : Runtime F) (found : CommandLogPrefixState) : Runtime F × Bool :=
  match found.firstFileSeq with
  | some first =>
      let back := (runtime.commandFirstFileSeq.any (first ≠ ·)) || decide (runtime.lastCommandFileSeq < first)
      ({ runtime with
          commandScanOffset := if back then 0 else runtime.commandScanOffset
          commandFirstFileSeq := some first }, back)
  | none =>
      if found.sawCompleteLine ∧ runtime.commandFirstFileSeq.isSome then
        ({ runtime with commandScanOffset := 0, commandFirstFileSeq := none }, true)
      else (runtime, false)

/-- The window from the scan offset, within what is left of the budget. -/
def readWindow (config : MetaTraderFileBridgeConfig) (library : Library F) (file : Option Bytes) (scanBudget : Nat)
    (runtime : Runtime F) : Runtime F × Except String (NdjsonSequenceReadResult (Json F)) :=
  match readNdjsonSequenceWindow library.log file runtime.commandScanOffset runtime.lastCommandFileSeq
    config.maxLineBytes scanBudget config.maxReturnedRecordsPerPoll with
  | .error message => (runtime, .error message)
  | .ok window =>
      let commandFirstFileSeq := runtime.commandFirstFileSeq.or (window.records.head?.map (·.fileSeq))
      ({ runtime with commandFirstFileSeq }, .ok window)

def resetScan (runtime : Runtime F) : Runtime F := { runtime with commandScanOffset := 0, commandFirstFileSeq := none }

def readCommandsWindow (config : MetaTraderFileBridgeConfig) (library : Library F) (disk : Disk F) (runtime : Runtime F) :
    Runtime F × Except String (NdjsonSequenceReadResult (Json F)) :=
  match disk.commandsLog with
  | none => (resetScan runtime, .ok {})
  | some data =>
      if config.maxCommandLogBytes < data.length then
        (runtime, .error "MetaTrader file bridge commands.ndjson exceeds configured byte limit.")
      else
        let runtime := if data.length < runtime.commandScanOffset then resetScan runtime else runtime
        if runtime.commandScanOffset = 0 then
          readWindow config library (some data) config.maxScannedRecordsPerPoll runtime
        else
          match commandLogPrefixState config library (some data) with
          | .error message => (runtime, .error message)
          | .ok found =>
              let (runtime, back) := checkPrefix runtime found
              let budget := config.maxScannedRecordsPerPoll
              let scanBudget :=
                if found.scannedRecords ≠ 0 ∧ !back ∧ 1 < budget then budget - min found.scannedRecords (budget - 1)
                else budget
              readWindow config library (some data) scanBudget runtime

def commitCommandScanOffset (nextOffset : Nat) (runtime : Runtime F) : Runtime F :=
  if runtime.commandScanOffset < nextOffset then { runtime with commandScanOffset := nextOffset } else runtime

/-! ## Handling a command -/

def jsonrpcInvalidRequest : Int := -32600

def jsonrpcMethodNotFound : Int := -32601

def jsonrpcInvalidParams : Int := -32602

def jsonrpcInternalError : Int := -32603

/-- What is appended to the event log in answer to a command. -/
inductive Reply (F : Type) where
  | result (id result : Json F)
  | error (id : Json F) (code : Int) (message : Text) (data : Json F)

def Reply.failure (id : Json F) (code : Int) (message : Text) : Reply F := .error id code message .null

def str (value : String) : Json F := .string (text value)

/-- A final result with a status, a reason and its message. -/
def rejection (status code message : String) : Json F :=
  .object [
    (text "status", str status), (text "final", .boolean true),
    (text "reason", .object [(text "code", str code), (text "message", str message)])]

def requestIdConflict : Json F :=
  rejection "rejected" "idempotency_conflict" "The same JSON-RPC id was used with a different operation."

def payloadConflict : Json F :=
  rejection "rejected" "idempotency_conflict" "The same idempotency_key was used with a different payload."

def helloResult : Json F :=
  .object [
    (text "status", str "ok"), (text "protocol_versions", .array [str "1.0"]),
    (text "supported_methods", .array
      [str "protocol.hello", str "account.balance.get", str "signal.submit", str "trade.open"]),
    (text "transport", str "metatrader_file")]

/-- The account is the snapshot's document, if there is one. -/
def balanceResult : Option (Json F) → Json F
  | none => rejection "unavailable" "account_snapshot_unavailable" "No account snapshot is available."
  | some account =>
      .object [(text "status", str "completed"), (text "final", .boolean true), (text "account", account)]

def idempotencyStorageKey (method : String) (idempotencyKey : Text) : Text :=
  if idempotencyKey = [] then [] else text (method ++ "\n") ++ idempotencyKey

def requestStorageKey (library : Library F) (method : String) (id : Json F) : Text :=
  match id with
  | .null => []
  | _ => text (method ++ "\n") ++ library.dump id

structure PendingSignalDispatch (F : Type) where
  fileSeq : UInt64
  id : Json F
  idempotencyStorageKey : Text
  requestStorageKey : Text
  payloadFingerprint : Text

/-- What handling a command comes to, before anything is appended or written. -/
inductive Handling (F : Type) where
  | reply (reply : Reply F)
  /-- The result is appended and then stored. -/
  | replyAndStore (id result : Json F) (storageKey requestKey fingerprint : Text)
  | dispatch (pending : PendingSignalDispatch F)
  /-- An exception. -/
  | throws (message : Text)

/-- The result of an operation that is known already, or the conflict with it, and the state afterwards. -/
def repeated (id : Json F) (storageKey requestKey fingerprint payloadFingerprint : Text) (result : Json F)
    (state : IdempotencyState F) : IdempotencyState F × Handling F :=
  if payloadFingerprint = fingerprint then
    let requestIndex := if requestKey = [] then state.requestIndex else state.requestIndex.assign requestKey storageKey
    ({ state with requestIndex }, .reply (.result id result))
  else (state, .reply (.result id payloadConflict))

/-- The checks on the deadline of a new operation, and on what is there to hand it over. -/
def admission (library : Library F) (pending : PendingSignalDispatch F) (params : Json F) (directTradeOpen : Bool)
    (hasSignalAllocator hasTradeSignalCallback : Bool) (nowMs : Int) : Handling F :=
  let invalid (message : Text) : Handling F := .reply (.failure pending.id jsonrpcInvalidParams message)
  let rejected (result : Json F) : Handling F :=
    .replyAndStore pending.id result pending.idempotencyStorageKey pending.requestStorageKey pending.payloadFingerprint
  match library.attach params directTradeOpen with
  | .error message => invalid message
  | .ok () =>
      if !(objectMemberOrEmpty params "context").contains (text "valid_until_ms") then
        invalid (text "MetaTrader file bridge trade-affecting commands require context.valid_until_ms.")
      else
        match contextValidUntilMs params with
        | .error message => invalid message
        | .ok validUntilMs =>
            if validUntilMs ≤ 0 then
              invalid (text
                "MetaTrader file bridge context.valid_until_ms must be a positive Unix millisecond timestamp.")
            else if validUntilMs < nowMs then
              rejected (rejection "rejected" "stale_request" "Command valid_until_ms is in the past.")
            else if !hasSignalAllocator then
              .reply (.failure pending.id jsonrpcInternalError
                (text "MetaTrader file bridge signal ID allocator is not configured."))
            else if !hasTradeSignalCallback then
              rejected (rejection "rejected" "signal_handler_unavailable"
                "MetaTrader file bridge trade signal callback is not configured.")
            else .dispatch pending

/-- Whether a request with this id belongs to another operation; an entry whose operation is gone is removed. -/
def checkRequestId (requestKey storageKey : Text) (state : IdempotencyState F) : Bool × IdempotencyState F :=
  if requestKey = [] then (false, state)
  else
    match state.requestIndex.find? requestKey with
    | none => (false, state)
    | some indexed =>
        if indexed ≠ storageKey then (true, state)
        else if !state.known indexed then (false, { state with requestIndex := state.requestIndex.erase requestKey })
        else (false, state)

def handleSignalCommand (config : MetaTraderFileBridgeConfig) (library : Library F) (clock : Nat → Int64)
    (fileSeq : UInt64) (id : Json F) (method : String) (params : Json F)
    (hasSignalAllocator hasTradeSignalCallback : Bool) (state : IdempotencyState F) : IdempotencyState F × Handling F :=
  let state := state.pruneExpiredTombstones config.idempotencyRetentionMs (clock 0).toUInt64
  let requestKey := requestStorageKey library method id
  let idempotencyKey := contextIdempotencyKey params
  if idempotencyKey = [] then
    (state, .reply (.failure id jsonrpcInvalidParams
      (text "MetaTrader file bridge trade-affecting commands require context.idempotency_key.")))
  else
    let storageKey := idempotencyStorageKey method idempotencyKey
    let directTradeOpen := method = "trade.open"
    match library.fingerprint params directTradeOpen with
    | .error message => (state, .throws message)
    | .ok fingerprint =>
        let (conflict, state) := checkRequestId requestKey storageKey state
        if conflict then (state, .reply (.result id requestIdConflict))
        else
          match state.records.find? storageKey, state.tombstones.find? storageKey with
          | some existing, _ =>
              repeated id storageKey requestKey fingerprint existing.payloadFingerprint existing.result state
          | none, some tombstone =>
              repeated id storageKey requestKey fingerprint tombstone.payloadFingerprint tombstone.result state
          | none, none =>
              let pending : PendingSignalDispatch F :=
                { fileSeq, id, idempotencyStorageKey := storageKey, requestStorageKey := requestKey
                  payloadFingerprint := fingerprint }
              (state, admission library pending params directTradeOpen hasSignalAllocator hasTradeSignalCallback
                (clock 1).toInt)

/-- Whether the document is a JSON-RPC request, or the exception of a member of another type. -/
def isJsonrpcRequest (library : Library F) (document : Json F) : Except Text Bool :=
  if !document.isObject then .ok false
  else
    match document.member? (text "jsonrpc") with
    | none => .ok false
    | some (.string version) =>
        if version ≠ text "2.0" then .ok false
        else
          match document.member? (text "method") with
          | some (.string _) => .ok true
          | _ => .ok false
    | some _ => .error library.typeError

/-- The part of `handle_command_record_locked` that is tried. -/
def handleCommandRecord (config : MetaTraderFileBridgeConfig) (library : Library F) (clock : Nat → Int64)
    (account : Option (Json F)) (record : NdjsonRecord (Json F)) (hasSignalAllocator hasTradeSignalCallback : Bool)
    (state : IdempotencyState F) : IdempotencyState F × Handling F :=
  let document := record.document
  let id := (document.member? (text "id")).getD .null
  match isJsonrpcRequest library document with
  | .error message => (state, .throws message)
  | .ok false => (state, .reply (.failure id jsonrpcInvalidRequest (text "Invalid JSON-RPC request.")))
  | .ok true =>
      let method := stringValue document "method"
      let params := (document.member? (text "params")).getD (.object [])
      let signalCommand (method : String) : IdempotencyState F × Handling F :=
        handleSignalCommand config library clock record.fileSeq id method params hasSignalAllocator
          hasTradeSignalCallback state
      if method = text "protocol.hello" then (state, .reply (.result id helloResult))
      else if method = text "account.balance.get" then (state, .reply (.result id (balanceResult account)))
      else if method = text "signal.submit" then signalCommand "signal.submit"
      else if method = text "trade.open" then signalCommand "trade.open"
      else
        (state, .reply (.error id jsonrpcMethodNotFound (text "Unsupported MetaTrader file bridge method.")
          (.object [(text "method", .string method)])))

/-! ## Polls -/

/-- Where the poll in progress stands. -/
inductive Stage (F : Type) where
  /-- The next command is handled next. -/
  | records
  | allocating (pending : PendingSignalDispatch F)
  | marking (pending : PendingSignalDispatch F) (signalId : Nat)
  | calling (pending : PendingSignalDispatch F) (signalId : Nat)
  | storing (pending : PendingSignalDispatch F) (signalId : Nat)
  | failing (pending : PendingSignalDispatch F) (message : Text)
  /-- The checkpoint is written next. -/
  | handled

structure Poll (F : Type) where
  hasSignalAllocator : Bool
  hasTradeSignalCallback : Bool
  /-- From the command in progress on. -/
  records : List (NdjsonRecord (Json F))
  nextOffset : Nat
  stage : Stage F := .records

structure Bridge (F : Type) where
  disk : Disk F := {}
  runtime : Option (Runtime F) := none
  /-- `m_processing`, and what it processes. -/
  poll : Option (Poll F) := none

/-- Readings of the clock are numbered in each section; appends and writes may throw. -/
inductive Event (F : Type) where
  | crash
  /-- The writers of the command log change it. -/
  | log (file : Option Bytes)
  /-- Another entry point starts the runtime; the event log may not be readable. -/
  | start (eventsReadable : Bool)
  | poll (hasSignalAllocator hasTradeSignalCallback eventsReadable : Bool)
  | handle (clock : Nat → Int64) (account : Option (Json F)) (appended written : Except Text Unit)
      (errorAppended : Bool)
  | allocated (result : CallResult Nat)
  | mark (clock : Nat → UInt64) (written : Except Text Unit)
  | called (result : CallResult Unit)
  | store (clock : Nat → UInt64) (written : Except Text Unit) (appended : Bool)
  | fail (errorAppended : Bool)
  | checkpoint (clock : Nat → UInt64) (stateWritten : Except Text Unit) (checkpointWritten : Bool)
  | finish

/-- What an event gives: the replies that were appended, the operation for which the callback is called, and the operation
whose final result was stored. -/
structure Answer (F : Type) where
  replies : List (Reply F) := []
  called : Option Text := none
  accepted : Option Text := none

def signalRef (signalId : Nat) : Json F := .object [(text "signal_id", str (toString signalId))]

def operationId (config : MetaTraderFileBridgeConfig) (fileSeq : UInt64) : Json F :=
  str ("file:" ++ toString config.bridgeId ++ ":" ++ toString fileSeq.toNat)

def makeInDoubtResult (config : MetaTraderFileBridgeConfig) (fileSeq : UInt64) (signalId : Nat) : Json F :=
  .object [
    (text "status", str "in_doubt"), (text "final", .boolean false), (text "operation_id", operationId config fileSeq),
    (text "signal_ref", signalRef signalId),
    (text "reason", .object [
      (text "code", str "operation_handoff_in_doubt"),
      (text "message", str ("The command was durably marked before handoff; " ++
        "bridge restart must not dispatch it again automatically."))])]

def acceptedResult (config : MetaTraderFileBridgeConfig) (fileSeq : UInt64) (signalId : Nat) : Json F :=
  .object [
    (text "status", str "accepted"), (text "final", .boolean false), (text "operation_id", operationId config fileSeq),
    (text "signal_ref", signalRef signalId)]

namespace Bridge

/-- An exception leaves `process`. -/
def abort (s : Bridge F) : Bridge F := { s with poll := none }

def goOn (s : Bridge F) (poll : Poll F) (stage : Stage F) : Bridge F := { s with poll := some { poll with stage } }

/-- The runtime that is there, or is started. -/
def ensureRuntimeStarted (config : MetaTraderFileBridgeConfig) (library : Library F) (eventsReadable : Bool)
    (s : Bridge F) : Bridge F :=
  match s.runtime with
  | some _ => s
  | none =>
      match startRuntime config library s.disk with
      | .ok runtime => if eventsReadable then { s with runtime := some runtime } else s
      | .error _ => s

/-- `process`, up to the window. -/
def beginPoll (config : MetaTraderFileBridgeConfig) (library : Library F)
    (hasSignalAllocator hasTradeSignalCallback eventsReadable : Bool) (s : Bridge F) : Bridge F :=
  let s := s.ensureRuntimeStarted config library eventsReadable
  match s.runtime with
  | none => s
  | some runtime =>
      match readCommandsWindow config library s.disk runtime with
      | (runtime, .error _) => { s with runtime := some runtime }
      | (runtime, .ok window) =>
          { s with
            runtime := some runtime
            poll := some {
              hasSignalAllocator, hasTradeSignalCallback, records := window.records, nextOffset := window.nextOffset } }

/-- The error reply after an exception, which may fail as well. -/
def errorReply (s : Bridge F) (poll : Poll F) (errorAppended : Bool) (id : Json F) (message : Text) :
    Bridge F × Answer F :=
  if errorAppended then (s.goOn poll .handled, { replies := [.failure id jsonrpcInternalError message] })
  else (s.abort, {})

/-- What handling a command came to is carried out. -/
def carryOut (config : MetaTraderFileBridgeConfig) (library : Library F) (clock : Nat → UInt64)
    (appended written : Except Text Unit) (errorAppended : Bool) (id : Json F) (runtime : Runtime F) (poll : Poll F)
    (s : Bridge F) : Handling F → Bridge F × Answer F
  | .reply reply =>
      match appended with
      | .ok () => (s.goOn poll .handled, { replies := [reply] })
      | .error message => s.errorReply poll errorAppended id message
  | .replyAndStore id result storageKey requestKey fingerprint =>
      match appended with
      | .error message => s.errorReply poll errorAppended id message
      | .ok () =>
          match storeIdempotencyResult config library clock written storageKey requestKey fingerprint result
            runtime.idempotency s.disk with
          | .ok (idempotency, disk) =>
              ({ s with disk, runtime := some { runtime with idempotency } }.goOn poll .handled,
                { replies := [.result id result] })
          | .error message =>
              let (s, answer) := s.errorReply poll errorAppended id message
              (s, { answer with replies := .result id result :: answer.replies })
  | .dispatch pending => (s.goOn poll (.allocating pending), {})
  | .throws message => s.errorReply poll errorAppended id message

/-- The next command is handled. -/
def handleNext (config : MetaTraderFileBridgeConfig) (library : Library F) (clock : Nat → Int64)
    (account : Option (Json F)) (appended written : Except Text Unit) (errorAppended : Bool) (runtime : Runtime F)
    (poll : Poll F) (record : NdjsonRecord (Json F)) (s : Bridge F) : Bridge F × Answer F :=
  let (idempotency, handling) := handleCommandRecord config library clock account record poll.hasSignalAllocator
    poll.hasTradeSignalCallback runtime.idempotency
  let runtime := { runtime with idempotency }
  { s with runtime := some runtime }.carryOut config library (fun i => (clock (i + 2)).toUInt64) appended written
    errorAppended ((record.document.member? (text "id")).getD .null) runtime poll handling

/-- An allocator that throws something else leaves `process`. -/
def idAllocated (s : Bridge F) (poll : Poll F) (pending : PendingSignalDispatch F) : CallResult Nat → Bridge F
  | .threw _ => s.goOn poll (.failing pending (text "MetaTrader file bridge signal ID allocator failed."))
  | .threwUnknown => s.abort
  | .returned 0 => s.goOn poll (.failing pending (text "MetaTrader file bridge could not allocate signal ID."))
  | .returned signalId => s.goOn poll (.marking pending signalId)

def callbackReturned (s : Bridge F) (poll : Poll F) (pending : PendingSignalDispatch F) (signalId : Nat) :
    CallResult Unit → Bridge F
  | .returned () => s.goOn poll (.storing pending signalId)
  | .threw message => s.goOn poll (.failing pending message)
  | .threwUnknown =>
      s.goOn poll (.failing pending
        (text "MetaTrader file bridge signal callback failed with an unknown exception."))

/-- The result of an operation is stored before the poll goes on. -/
def storeResult (config : MetaTraderFileBridgeConfig) (library : Library F) (clock : Nat → UInt64)
    (written : Except Text Unit) (runtime : Runtime F) (pending : PendingSignalDispatch F) (result : Json F)
    (s : Bridge F) : Option (Bridge F) :=
  match storeIdempotencyResult config library clock written pending.idempotencyStorageKey pending.requestStorageKey
    pending.payloadFingerprint result runtime.idempotency s.disk with
  | .ok (idempotency, disk) => some { s with disk, runtime := some { runtime with idempotency } }
  | .error _ => none

/-- `write_commands_checkpoint_locked`: the mark in the state first, then the checkpoint; nothing where one of them fails. -/
def writeCommandsCheckpoint (config : MetaTraderFileBridgeConfig) (library : Library F) (clock : Nat → UInt64)
    (stateWritten : Except Text Unit) (checkpointWritten : Bool) (runtime : Runtime F) (s : Bridge F) : Bridge F × Bool :=
  let checkpoint (runtime : Runtime F) (disk : Disk F) : Bridge F × Bool :=
    if checkpointWritten then
      ({ s with
          runtime := some runtime
          disk := { disk with commandsCheckpoint := some (makeLogCheckpoint runtime.lastCommandFileSeq) } }, true)
    else ({ s with runtime := some runtime, disk }, false)
  if runtime.idempotency.processedThroughFileSeq < runtime.lastCommandFileSeq then
    match writeIdempotencyRecords config library clock stateWritten
      { runtime.idempotency with processedThroughFileSeq := runtime.lastCommandFileSeq } s.disk with
    | .ok (idempotency, disk) => checkpoint { runtime with idempotency } disk
    | .error _ => ({ s with runtime := some runtime }, false)
  else checkpoint runtime s.disk

/-- The command has been handled: its sequence number is written down if it is new, and the offset moves on. -/
def finishRecord (config : MetaTraderFileBridgeConfig) (library : Library F) (clock : Nat → UInt64)
    (stateWritten : Except Text Unit) (checkpointWritten : Bool) (runtime : Runtime F) (poll : Poll F)
    (record : NdjsonRecord (Json F)) (rest : List (NdjsonRecord (Json F))) (s : Bridge F) : Bridge F :=
  let (s, written) :=
    if runtime.lastCommandFileSeq < record.fileSeq then
      s.writeCommandsCheckpoint config library clock stateWritten checkpointWritten
        { runtime with lastCommandFileSeq := record.fileSeq }
    else ({ s with runtime := some runtime }, true)
  if written then
    { s with
      runtime := s.runtime.map (commitCommandScanOffset record.nextOffset)
      poll := some { poll with records := rest, stage := .records } }
  else s.abort

/-- An event while a poll is in progress. -/
def inPoll (config : MetaTraderFileBridgeConfig) (library : Library F) (s : Bridge F) (runtime : Runtime F)
    (poll : Poll F) : Event F → Bridge F × Answer F
  | .handle clock account appended written errorAppended =>
      match poll.stage, poll.records with
      | .records, record :: _ =>
          s.handleNext config library clock account appended written errorAppended runtime poll record
      | _, _ => (s, {})
  | .allocated result =>
      match poll.stage with
      | .allocating pending => (s.idAllocated poll pending result, {})
      | _ => (s, {})
  | .mark clock written =>
      match poll.stage with
      | .marking pending signalId =>
          match s.storeResult config library clock written runtime pending
            (makeInDoubtResult config pending.fileSeq signalId) with
          | some s => (s.goOn poll (.calling pending signalId), {})
          | none => (s.abort, {})
      | _ => (s, {})
  | .called result =>
      match poll.stage with
      | .calling pending signalId =>
          (s.callbackReturned poll pending signalId result, { called := some pending.idempotencyStorageKey })
      | _ => (s, {})
  | .store clock written appended =>
      match poll.stage with
      | .storing pending signalId =>
          let result := acceptedResult config pending.fileSeq signalId
          match s.storeResult config library clock written runtime pending result with
          | some s =>
              let accepted := some pending.idempotencyStorageKey
              if appended then (s.goOn poll .handled, { replies := [.result pending.id result], accepted })
              else (s.abort, { accepted })
          | none => (s.abort, {})
      | _ => (s, {})
  | .fail errorAppended =>
      match poll.stage with
      | .failing pending message => s.errorReply poll errorAppended pending.id message
      | _ => (s, {})
  | .checkpoint clock stateWritten checkpointWritten =>
      match poll.stage, poll.records with
      | .handled, record :: rest =>
          (s.finishRecord config library clock stateWritten checkpointWritten runtime poll record rest, {})
      | _, _ => (s, {})
  | .finish =>
      match poll.stage, poll.records with
      | .records, [] =>
          ({ s with runtime := some (commitCommandScanOffset poll.nextOffset runtime), poll := none }, {})
      | _, _ => (s, {})
  | _ => (s, {})

/-- An event that needs a poll in progress. -/
def whilePolling (config : MetaTraderFileBridgeConfig) (library : Library F) (s : Bridge F) (event : Event F) :
    Bridge F × Answer F :=
  match s.runtime, s.poll with
  | some runtime, some poll => s.inPoll config library runtime poll event
  | _, _ => (s, {})

def step (config : MetaTraderFileBridgeConfig) (library : Library F) (s : Bridge F) : Event F → Bridge F × Answer F
  | .crash => ({ disk := s.disk }, {})
  | .log file => ({ s with disk := { s.disk with commandsLog := file } }, {})
  | .start eventsReadable => (s.ensureRuntimeStarted config library eventsReadable, {})
  | .poll hasSignalAllocator hasTradeSignalCallback eventsReadable =>
      match s.poll with
      | none => (s.beginPoll config library hasSignalAllocator hasTradeSignalCallback eventsReadable, {})
      | some _ => (s, {})
  | event => s.whilePolling config library event

end Bridge

end OptionX.Bridges.MetaTraderFile
