import OptionX.Storage.RecordKey
import OptionX.TradeExecution.Types

/-!
# TradeRecordDB

The tables of `TradeRecordDB.ipp` and the calls that change them, each one transaction under the mutex: a call that
does not commit returns the tables it was given.
-/

namespace OptionX.Storage

open TradeExecution (AccountType)

inductive PlatformType where
  | unknown | simulator | clicker | intradeBar | tradeup
  deriving DecidableEq

/-- The fields of a record that the database reads. -/
structure TradeRecord where
  tradeId : UInt32 := 0
  uniqueId : Int := 0
  accountId : Int := 0
  optionId : Int := 0
  optionHash : String := ""
  platformType : PlatformType := .unknown
  accountType : AccountType := .unknown
  symbol : String := ""
  placeDate : Int := 0
  sendDate : Int := 0
  openDate : Int := 0
  closeDate : Int := 0
  deriving DecidableEq

instance : Inhabited TradeRecord := ⟨{}⟩

namespace TradeRecord

def hasBrokerIdentity (record : TradeRecord) : Bool := record.optionId ≠ 0 || record.optionHash ≠ ""

def sameKnown {T : Type} [DecidableEq T] (lhs rhs unknown : T) : Bool := lhs = unknown || rhs = unknown || lhs = rhs

def sameBrokerIdentity (record other : TradeRecord) : Bool :=
  if !record.hasBrokerIdentity || !other.hasBrokerIdentity then false
  else if !sameKnown record.platformType other.platformType .unknown then false
  else if !sameKnown record.accountType other.accountType .unknown then false
  else if !sameKnown record.accountId other.accountId 0 then false
  else if !sameKnown record.symbol other.symbol "" then false
  else if record.optionId ≠ 0 && other.optionId ≠ 0 && record.optionId ≠ other.optionId then false
  else if record.optionHash ≠ "" && other.optionHash ≠ "" && record.optionHash ≠ other.optionHash then false
  else
    let sameNumericId := record.optionId ≠ 0 && other.optionId ≠ 0 && record.optionId = other.optionId
    let sameStringId := record.optionHash ≠ "" && other.optionHash ≠ "" && record.optionHash = other.optionHash
    sameNumericId || sameStringId

def selectedTimestampMs (record : TradeRecord) : Int :=
  if 0 < record.placeDate then record.placeDate
  else if 0 < record.sendDate then record.sendDate
  else if 0 < record.openDate then record.openDate
  else if 0 < record.closeDate then record.closeDate
  else 0

/-- The key that a record is stored under. -/
def compositeKey (msToMin : Int → Int) (record : TradeRecord) : UInt64 :=
  makeCompositeKey (timestampMsToUnixMinutes msToMin record.selectedTimestampMs) record.tradeId

end TradeRecord

structure TradeRecordDB where
  records : Lib.OrderedMap UInt64 TradeRecord := .empty
  uidIndex : Lib.OrderedMap Int UInt64 := .empty
  tradeIdIndex : Lib.OrderedMap UInt32 UInt64 := .empty
  metaTable : MetaTable := none
  isOpen : Bool := false
  readOnly : Bool := false

namespace TradeRecordDB

def reserveTradeId (db : TradeRecordDB) : TradeRecordDB × UInt32 :=
  let candidate := db.metaTable.get.freeId db.tradeIdIndex.contains
  if candidate = 0 then (db, 0) else ({ db with metaTable := some (db.metaTable.get.advance candidate) }, candidate)

/-- The trade id of the first stored record of the same broker identity, zero when there is none. -/
def findBrokerIdentityKey (record : TradeRecord) (db : TradeRecordDB) : UInt32 :=
  match db.records.values.find? record.sameBrokerIdentity with
  | some row => row.tradeId
  | none => 0

/-- The search of `upsert` in the uid index; an entry that points nowhere is erased. -/
def findUid (record : TradeRecord) (db : TradeRecordDB) : TradeRecordDB × UInt32 :=
  if record.tradeId = 0 ∧ 0 < record.uniqueId then
    match db.uidIndex.find? record.uniqueId with
    | none => (db, 0)
    | some existingComposite =>
        match db.records.find? existingComposite with
        | some existingRecord => (db, existingRecord.tradeId)
        | none => ({ db with uidIndex := db.uidIndex.erase record.uniqueId }, 0)
  else (db, record.tradeId)

/-- The trade id that `upsert` stores a record under, zero when there is none. -/
def selectTradeId (record : TradeRecord) (db : TradeRecordDB) : TradeRecordDB × UInt32 :=
  let byUid := db.findUid record
  let existing :=
    if byUid.2 = 0 ∧ record.hasBrokerIdentity = true then (byUid.1, byUid.1.findBrokerIdentityKey record) else byUid
  if existing.2 = 0 then existing.1.reserveTradeId else existing

section Calls

variable (msToMin : Int → Int) (nowMs : Int)

/-- The end of `write` and `upsert`. -/
def storeRecord (record : TradeRecord) (db : TradeRecordDB) : TradeRecordDB :=
  let newCompositeKey := record.compositeKey msToMin
  let db :=
    match db.tradeIdIndex.find? record.tradeId with
    | none => db
    | some existingComposite =>
        if existingComposite ≠ newCompositeKey then
          { db with
            uidIndex :=
              match db.records.find? existingComposite with
              | none => db.uidIndex
              | some oldRecord =>
                  if 0 < oldRecord.uniqueId ∧ oldRecord.uniqueId ≠ record.uniqueId then
                    db.uidIndex.erase oldRecord.uniqueId
                  else db.uidIndex
            records := db.records.erase existingComposite }
        else db
  { db with
    records := db.records.assign newCompositeKey record
    uidIndex := if 0 < record.uniqueId then db.uidIndex.assign record.uniqueId newCompositeKey else db.uidIndex
    tradeIdIndex := db.tradeIdIndex.assign record.tradeId newCompositeKey
    metaTable := (db.metaTable.bump record.tradeId).updateLastUpdate nowMs }

def write (record : TradeRecord) (db : TradeRecordDB) : TradeRecordDB × StorageWriteResult TradeRecord :=
  if !db.isOpen then (db, writeError .notOpen record "TradeRecordDB is not open")
  else if db.readOnly then (db, writeError .readOnly record "TradeRecordDB is read-only")
  else if record.tradeId = 0 then (db, writeError .invalidArgument record "TradeRecord trade_id is required")
  else (db.storeRecord msToMin nowMs record, writeSuccess record)

def upsert (record : TradeRecord) (db : TradeRecordDB) : TradeRecordDB × StorageWriteResult TradeRecord :=
  if !db.isOpen then (db, writeError .notOpen record "TradeRecordDB is not open")
  else if db.readOnly then (db, writeError .readOnly record "TradeRecordDB is read-only")
  else
    let selected := db.selectTradeId record
    if selected.2 = 0 then (db, writeError .dbError record "TradeRecordDB could not reserve a trade_id")
    else
      let record := { record with tradeId := selected.2 }
      (selected.1.storeRecord msToMin nowMs record, writeSuccess record)

def eraseByTradeId (tradeId : UInt32) (db : TradeRecordDB) : TradeRecordDB × StorageStatus :=
  if !db.isOpen then (db, .notOpen)
  else if db.readOnly then (db, .readOnly)
  else if tradeId = 0 then (db, .invalidArgument)
  else
    match db.tradeIdIndex.find? tradeId with
    | none => (db, .notFound)
    | some composite =>
        ({ db with
          uidIndex :=
            match db.records.find? composite with
            | none => db.uidIndex
            | some record => if 0 < record.uniqueId then db.uidIndex.erase record.uniqueId else db.uidIndex
          records := db.records.erase composite
          tradeIdIndex := db.tradeIdIndex.erase tradeId
          metaTable := db.metaTable.updateLastUpdate nowMs }, .success)

def clear (db : TradeRecordDB) : TradeRecordDB × StorageStatus :=
  if !db.isOpen then (db, .notOpen)
  else if db.readOnly then (db, .readOnly)
  else
    ({ db with
      records := .empty
      uidIndex := .empty
      tradeIdIndex := .empty
      metaTable := MetaTable.updateLastUpdate nowMs (some (MetaTable.get none).init) }, .success)

def getTradeId (db : TradeRecordDB) : TradeRecordDB × UInt32 :=
  if !db.isOpen then (db, 0)
  else if db.readOnly then (db, 0)
  else
    let r := db.reserveTradeId
    if r.2 = 0 then (db, 0) else ({ r.1 with metaTable := r.1.metaTable.updateLastUpdate nowMs }, r.2)

end Calls

def findByUid (uniqueId : Int) (db : TradeRecordDB) : StorageReadResult TradeRecord :=
  if !db.isOpen then readError .notOpen "TradeRecordDB is not open"
  else if uniqueId ≤ 0 then readError .invalidArgument "TradeRecord unique_id is required"
  else
    match db.uidIndex.find? uniqueId with
    | none => readError .notFound "TradeRecord UID index entry was not found"
    | some composite =>
        match db.records.find? composite with
        | none => readError .notFound "TradeRecord UID index points to missing record"
        | some record =>
            if record.uniqueId ≠ uniqueId then
              readError .notFound "TradeRecord UID index points to a different unique_id"
            else { status := .success, record, found := true }

/-- The calls; a shutdown database is opened again by another instance on the same tables. -/
inductive Event where
  | upsert (nowMs : Int) (record : TradeRecord)
  | write (nowMs : Int) (record : TradeRecord)
  | eraseByTradeId (nowMs : Int) (tradeId : UInt32)
  | clear (nowMs : Int)
  | getTradeId (nowMs : Int)
  | shutdown
  | reopen (readOnly : Bool)

inductive Answer where
  | result (result : StorageWriteResult TradeRecord)
  | status (status : StorageStatus)
  | id (tradeId : UInt32)
  | done
  deriving DecidableEq

def step (msToMin : Int → Int) (db : TradeRecordDB) : Event → TradeRecordDB × Answer
  | .upsert nowMs record => (db.upsert msToMin nowMs record).map id .result
  | .write nowMs record => (db.write msToMin nowMs record).map id .result
  | .eraseByTradeId nowMs tradeId => (db.eraseByTradeId nowMs tradeId).map id .status
  | .clear nowMs => (db.clear nowMs).map id .status
  | .getTradeId nowMs => (db.getTradeId nowMs).map id .id
  | .shutdown => ({ db with isOpen := false }, .done)
  | .reopen readOnly =>
      ({ db with
        isOpen := true
        readOnly
        metaTable := if readOnly then db.metaTable else some db.metaTable.get.init }, .done)

end TradeRecordDB

end OptionX.Storage
