import OptionX.Lib.OrderedMap
import OptionX.TradingView.Json

/-!
# The idempotency state of the file bridge

`MetaTraderFileIdempotencyStore.hpp`: the records of operations, the document in which they are written, and its reader. A
file is the document that the JSON library reads from it, or none.
-/

namespace OptionX.Bridges.MetaTraderFile

open Lib (OrderedMap)
open TradingView (Json Text text)

variable {F : Type}

theorem keyBytes_injective : Function.Injective (List.map UInt8.toNat) :=
  List.map_injective_iff.mpr fun _ _ => UInt8.toNat_inj.mp

/-- Keys of `std::map` in the order of their bytes. -/
scoped instance keyOrder : LinearOrder Text := LinearOrder.lift' (List.map UInt8.toNat) keyBytes_injective

structure IdempotencyRecord (F : Type) where
  payloadFingerprint : Text
  result : Json F
  createdAtMs : UInt64 := 0
  updatedAtMs : UInt64 := 0

structure IdempotencyTombstone (F : Type) where
  payloadFingerprint : Text
  result : Json F
  evictedAtMs : UInt64 := 0

structure IdempotencyState (F : Type) where
  records : OrderedMap Text (IdempotencyRecord F) := .empty
  tombstones : OrderedMap Text (IdempotencyTombstone F) := .empty
  requestIndex : OrderedMap Text Text := .empty
  processedThroughFileSeq : UInt64 := 0

/-! ## The document -/

def recordDocument (record : IdempotencyRecord F) : Json F :=
  .object [
    (text "payload_fingerprint", .string record.payloadFingerprint),
    (text "result", record.result),
    (text "created_at_ms", .unsigned record.createdAtMs),
    (text "updated_at_ms", .unsigned record.updatedAtMs)]

def tombstoneDocument (tombstone : IdempotencyTombstone F) : Json F :=
  .object [
    (text "payload_fingerprint", .string tombstone.payloadFingerprint),
    (text "result", tombstone.result),
    (text "evicted_at_ms", .unsigned tombstone.evictedAtMs)]

/-- Whether a record or a tombstone has the key. -/
def IdempotencyState.known (state : IdempotencyState F) (storageKey : Text) : Bool :=
  state.records.contains storageKey || state.tombstones.contains storageKey

def makeIdempotencyStateDocument (state : IdempotencyState F) : Json F :=
  let requestIndex := state.requestIndex.entries.filter fun item => state.known item.2
  .object [
    (text "processed_through_file_seq", .unsigned state.processedThroughFileSeq),
    (text "records", .object (state.records.mapValues recordDocument).entries),
    (text "tombstones", .object (state.tombstones.mapValues tombstoneDocument).entries),
    (text "request_index", .object (requestIndex.map fun item => (item.1, .string item.2)))]

/-! ## The reader -/

def fieldError (key file : String) (what : String) : String :=
  "MetaTrader file bridge idempotency state field '" ++ key ++ "' must be " ++ what ++ ": " ++ file

def requiredIdempotencyUint64Value (object : Json F) (key file : String) (allowZero : Bool) : Except String UInt64 :=
  match object.member? (text key) with
  | none =>
      .error ("MetaTrader file bridge idempotency state is missing numeric field '" ++ key ++ "': " ++ file)
  | some (.unsigned value) =>
      if !allowZero ∧ value = 0 then .error (fieldError key file "positive") else .ok value
  | some (.integer value) =>
      if value < 0 then .error (fieldError key file "non-negative")
      else if !allowZero ∧ value.toUInt64 = 0 then .error (fieldError key file "positive")
      else .ok value.toUInt64
  | some _ => .error (fieldError key file "an integer")

def readRecord (file : String) (value : Json F) : Except String (IdempotencyRecord F) :=
  match value.member? (text "payload_fingerprint"), value.member? (text "result") with
  | some (.string payloadFingerprint), some result => do
      let createdAtMs ← requiredIdempotencyUint64Value value "created_at_ms" file false
      let updatedAtMs ← requiredIdempotencyUint64Value value "updated_at_ms" file false
      return { payloadFingerprint, result, createdAtMs, updatedAtMs }
  | _, _ => .error ("MetaTrader file bridge idempotency record is malformed: " ++ file)

def readTombstone (file : String) (value : Json F) : Except String (IdempotencyTombstone F) :=
  match value.member? (text "payload_fingerprint"), value.member? (text "result") with
  | some (.string payloadFingerprint), some result => do
      let evictedAtMs ← requiredIdempotencyUint64Value value "evicted_at_ms" file false
      return { payloadFingerprint, result, evictedAtMs }
  | _, _ => .error ("MetaTrader file bridge idempotency tombstone is malformed: " ++ file)

def readIndexEntry (file : String) : Json F → Except String Text
  | .string storageKey => .ok storageKey
  | _ => .error ("MetaTrader file bridge idempotency request_index entry is malformed: " ++ file)

/-- The members of an object, each of which is read and put into a map where its key is new. -/
def readMembers {α : Type} (read : Json F → Except String α) :
    List (Text × Json F) → OrderedMap Text α → Except String (OrderedMap Text α)
  | [], map => .ok map
  | (key, value) :: members, map => do
      let item ← read value
      readMembers read members (map.emplace key item)

/-- A map under a name of the document; one that is not there is empty. -/
def readSection {α : Type} (read : Json F → Except String α) (document : Json F) (name file : String) :
    Except String (OrderedMap Text α) :=
  match document.member? (text name) with
  | none => .ok .empty
  | some (.object members) => readMembers read members .empty
  | some _ => .error ("MetaTrader file bridge idempotency " ++ name ++ " must be an object: " ++ file)

def readIdempotencyState (file : String) : Option (Json F) → Except String (IdempotencyState F)
  | none => .ok {}
  | some document =>
      if !document.isObject then .error ("MetaTrader file bridge idempotency state must be an object: " ++ file)
      else do
        let processedThroughFileSeq ←
          requiredIdempotencyUint64Value document "processed_through_file_seq" file true
        if !document.contains (text "records") then return { processedThroughFileSeq }
        else
          let records ← readSection (readRecord file) document "records" file
          let tombstones ← readSection (readTombstone file) document "tombstones" file
          let requestIndex ← readSection (readIndexEntry file) document "request_index" file
          return { records, tombstones, requestIndex, processedThroughFileSeq }

end OptionX.Bridges.MetaTraderFile
