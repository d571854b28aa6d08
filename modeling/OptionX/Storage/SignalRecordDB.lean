import OptionX.Storage.RecordKey

/-!
# SignalRecordDB

The tables of `SignalRecordDB.ipp` and the calls that change them, each one transaction under the mutex: a call that
does not commit returns the tables it was given.
-/

namespace OptionX.Storage

/-- The fields of a record that the database reads. -/
structure SignalRecord where
  signalId : UInt32 := 0
  createDate : Int := 0
  acceptDate : Int := 0
  rejectDate : Int := 0
  completeDate : Int := 0
  tradeIds : List UInt32 := []
  deriving DecidableEq

namespace SignalRecord

def selectedTimestampMs (record : SignalRecord) : Int :=
  if 0 < record.createDate then record.createDate
  else if 0 < record.acceptDate then record.acceptDate
  else if 0 < record.rejectDate then record.rejectDate
  else if 0 < record.completeDate then record.completeDate
  else 0

/-- The key that a record is stored under. -/
def compositeKey (msToMin : Int → Int) (record : SignalRecord) : UInt64 :=
  makeCompositeKey (timestampMsToUnixMinutes msToMin record.selectedTimestampMs) record.signalId

end SignalRecord

structure SignalRecordDB where
  records : Lib.OrderedMap UInt64 SignalRecord := .empty
  signalIdIndex : Lib.OrderedMap UInt32 UInt64 := .empty
  tradeIdIndex : Lib.OrderedMap UInt32 UInt64 := .empty
  metaTable : MetaTable := none
  isOpen : Bool := false
  readOnly : Bool := false

namespace SignalRecordDB

def reserveSignalId (db : SignalRecordDB) : SignalRecordDB × UInt32 :=
  let candidate := db.metaTable.get.freeId db.signalIdIndex.contains
  if candidate = 0 then (db, 0) else ({ db with metaTable := some (db.metaTable.get.advance candidate) }, candidate)

/-- Erases an index entry, unless it points to a record of another signal. -/
def eraseIfSameSignal (db : SignalRecordDB) (record : SignalRecord) (table : Lib.OrderedMap UInt32 UInt64)
    (key : UInt32) : Lib.OrderedMap UInt32 UInt64 :=
  match table.find? key with
  | none => table
  | some composite =>
      match db.records.find? composite with
      | some indexedRecord => if indexedRecord.signalId = record.signalId then table.erase key else table
      | none => table.erase key

def removeIndexes (record : SignalRecord) (db : SignalRecordDB) : SignalRecordDB :=
  { db with
    signalIdIndex :=
      if 0 < record.signalId then db.eraseIfSameSignal record db.signalIdIndex record.signalId else db.signalIdIndex
    tradeIdIndex :=
      record.tradeIds.foldl
        (fun table tradeId => if tradeId = 0 then table else db.eraseIfSameSignal record table tradeId)
        db.tradeIdIndex }

def writeIndexes (record : SignalRecord) (compositeKey : UInt64) (db : SignalRecordDB) : SignalRecordDB :=
  { db with
    signalIdIndex :=
      if 0 < record.signalId then db.signalIdIndex.assign record.signalId compositeKey else db.signalIdIndex
    tradeIdIndex :=
      record.tradeIds.foldl (fun table tradeId => if tradeId = 0 then table else table.assign tradeId compositeKey)
        db.tradeIdIndex }

section Calls

variable (msToMin : Int → Int) (nowMs : Int)

def storeRecord (record : SignalRecord) (db : SignalRecordDB) : SignalRecordDB :=
  let newCompositeKey := record.compositeKey msToMin
  let db :=
    match db.signalIdIndex.find? record.signalId with
    | none => db
    | some existingComposite =>
        let cleaned :=
          match db.records.find? existingComposite with
          | some oldRecord => db.removeIndexes oldRecord
          | none => db
        if existingComposite ≠ newCompositeKey then
          { cleaned with records := cleaned.records.erase existingComposite }
        else cleaned
  let db := { db with records := db.records.assign newCompositeKey record }.writeIndexes record newCompositeKey
  { db with metaTable := (db.metaTable.bump record.signalId).updateLastUpdate nowMs }

/-- The search through the trade ids of a record for one that a stored record owns; entries that point nowhere are
erased on the way. -/
def findOwner : List UInt32 → SignalRecordDB → SignalRecordDB × UInt32
  | [], db => (db, 0)
  | tradeId :: tradeIds, db =>
      if tradeId = 0 then findOwner tradeIds db
      else
        match db.tradeIdIndex.find? tradeId with
        | none => findOwner tradeIds db
        | some composite =>
            match db.records.find? composite with
            | some existingRecord => (db, existingRecord.signalId)
            | none => findOwner tradeIds { db with tradeIdIndex := db.tradeIdIndex.erase tradeId }

def findExistingSignalId (record : SignalRecord) (db : SignalRecordDB) : SignalRecordDB × UInt32 :=
  if 0 < record.signalId then (db, record.signalId) else findOwner record.tradeIds db

/-- The signal id that `upsert` stores a record under, zero when there is none. -/
def selectSignalId (record : SignalRecord) (db : SignalRecordDB) : SignalRecordDB × UInt32 :=
  let existing := db.findExistingSignalId record
  if existing.2 = 0 then existing.1.reserveSignalId else existing

/-- `trade_id_conflicts_no_lock` over the trade ids of a record of the signal. -/
def tradeIdConflicts (signalId : UInt32) : List UInt32 → SignalRecordDB → SignalRecordDB × Bool
  | [], db => (db, false)
  | tradeId :: tradeIds, db =>
      if tradeId = 0 then tradeIdConflicts signalId tradeIds db
      else
        match db.tradeIdIndex.find? tradeId with
        | none => tradeIdConflicts signalId tradeIds db
        | some composite =>
            match db.records.find? composite with
            | some existingRecord =>
                if existingRecord.signalId = signalId then tradeIdConflicts signalId tradeIds db else (db, true)
            | none => tradeIdConflicts signalId tradeIds { db with tradeIdIndex := db.tradeIdIndex.erase tradeId }

def conflictMessage : String := "SignalRecord trade_id already belongs to another signal"

/-- The end of `write` and `upsert`: the check of the trade ids, the record and its indexes, the commit. -/
def checkAndStore (record : SignalRecord) (db txn : SignalRecordDB) :
    SignalRecordDB × StorageWriteResult SignalRecord :=
  let r := txn.tradeIdConflicts record.signalId record.tradeIds
  if r.2 = true then (db, writeError .conflict record conflictMessage)
  else (r.1.storeRecord msToMin nowMs record, writeSuccess record)

def write (record : SignalRecord) (db : SignalRecordDB) : SignalRecordDB × StorageWriteResult SignalRecord :=
  if !db.isOpen then (db, writeError .notOpen record "SignalRecordDB is not open")
  else if db.readOnly then (db, writeError .readOnly record "SignalRecordDB is read-only")
  else if record.signalId = 0 then
    (db, writeError .invalidArgument record "SignalRecord signal_id is required")
  else checkAndStore msToMin nowMs record db db

def upsert (record : SignalRecord) (db : SignalRecordDB) : SignalRecordDB × StorageWriteResult SignalRecord :=
  if !db.isOpen then (db, writeError .notOpen record "SignalRecordDB is not open")
  else if db.readOnly then (db, writeError .readOnly record "SignalRecordDB is read-only")
  else
    let selected := db.selectSignalId record
    if selected.2 = 0 then
      (db, writeError .sequenceExhausted record "SignalRecordDB could not reserve a signal_id")
    else checkAndStore msToMin nowMs { record with signalId := selected.2 } db selected.1

def eraseBySignalId (signalId : UInt32) (db : SignalRecordDB) : SignalRecordDB × StorageStatus :=
  if !db.isOpen then (db, .notOpen)
  else if db.readOnly then (db, .readOnly)
  else if signalId = 0 then (db, .invalidArgument)
  else
    match db.signalIdIndex.find? signalId with
    | none => (db, .notFound)
    | some composite =>
        match db.records.find? composite with
        | none =>
            ({ db with
              signalIdIndex := db.signalIdIndex.erase signalId
              metaTable := db.metaTable.updateLastUpdate nowMs }, .notFound)
        | some record =>
            let db := db.removeIndexes record
            ({ db with records := db.records.erase composite, metaTable := db.metaTable.updateLastUpdate nowMs }, .success)

def clear (db : SignalRecordDB) : SignalRecordDB × StorageStatus :=
  if !db.isOpen then (db, .notOpen)
  else if db.readOnly then (db, .readOnly)
  else
    ({ db with
      records := .empty
      signalIdIndex := .empty
      tradeIdIndex := .empty
      metaTable := MetaTable.updateLastUpdate nowMs (some (MetaTable.get none).init) }, .success)

def getSignalId (db : SignalRecordDB) : SignalRecordDB × UInt32 :=
  if !db.isOpen then (db, 0)
  else if db.readOnly then (db, 0)
  else
    let r := db.reserveSignalId
    if r.2 = 0 then (db, 0) else ({ r.1 with metaTable := r.1.metaTable.updateLastUpdate nowMs }, r.2)

end Calls

/-- The calls; a shutdown database is opened again by another instance on the same tables. -/
inductive Event where
  | upsert (nowMs : Int) (record : SignalRecord)
  | write (nowMs : Int) (record : SignalRecord)
  | eraseBySignalId (nowMs : Int) (signalId : UInt32)
  | clear (nowMs : Int)
  | getSignalId (nowMs : Int)
  | shutdown
  | reopen (readOnly : Bool)

inductive Answer where
  | result (result : StorageWriteResult SignalRecord)
  | status (status : StorageStatus)
  | id (signalId : UInt32)
  | done
  deriving DecidableEq

def step (msToMin : Int → Int) (db : SignalRecordDB) : Event → SignalRecordDB × Answer
  | .upsert nowMs record => (db.upsert msToMin nowMs record).map id .result
  | .write nowMs record => (db.write msToMin nowMs record).map id .result
  | .eraseBySignalId nowMs signalId => (db.eraseBySignalId nowMs signalId).map id .status
  | .clear nowMs => (db.clear nowMs).map id .status
  | .getSignalId nowMs => (db.getSignalId nowMs).map id .id
  | .shutdown => ({ db with isOpen := false }, .done)
  | .reopen readOnly =>
      ({ db with
        isOpen := true
        readOnly
        metaTable := if readOnly then db.metaTable else some db.metaTable.get.init }, .done)

end SignalRecordDB

end OptionX.Storage
