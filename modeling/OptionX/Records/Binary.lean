import OptionX.Lib.Codec

/-!
# The binary form of stored records

`to_bytes` and `from_bytes` of `TradeRecord.hpp` and `SignalRecord.hpp`. Here the records have all their stored fields,
as they are in memory: texts are bytes, doubles are their 64 bits, and an enumeration is its underlying number.
-/

namespace OptionX.Records.Binary

open Lib.Codec

abbrev Double := UInt64

structure SpreadPack where
  raw : UInt64 := 0
  digits : UInt8 := 0

structure TradeRecord where
  tradeId : UInt32 := 0
  signalId : UInt32 := 0
  bridgeId : UInt32 := 0
  uniqueId : Int64 := 0
  uniqueHash : Bytes := []
  accountId : Int64 := 0
  optionId : Int64 := 0
  optionHash : Bytes := []
  platformType : Int := 0
  accountType : Int := 0
  currency : Int := 0
  symbol : Bytes := []
  signalName : Bytes := []
  userData : Bytes := []
  comment : Bytes := []
  optionType : Int := 0
  orderType : Int := 0
  amount : Double := 0
  refund : Double := 0
  minPayout : Double := 0
  payout : Double := 0
  profit : Double := 0
  openBalance : Double := 0
  closeBalance : Double := 0
  tradeState : Int := 0
  liveState : Int := 0
  errorCode : Int := 0
  errorDesc : Bytes := []
  openPrice : Double := 0
  closePrice : Double := 0
  delay : Int64 := 0
  ping : Int64 := 0
  placeDate : Int64 := 0
  sendDate : Int64 := 0
  openDate : Int64 := 0
  closeDate : Int64 := 0
  duration : UInt32 := 0
  mmType : Int := 0
  mmStep : Int32 := 0
  mmGroupId : Int64 := 0
  mmGroupHash : Bytes := []
  mmGroupName : Bytes := []
  mmParamsJson : Bytes := []
  decisionParamsJson : Bytes := []
  metadataJson : Bytes := []
  flags : UInt8 := 0
  spread : SpreadPack := {}

structure SignalRecord where
  signalId : UInt32 := 0
  bridgeId : UInt32 := 0
  uniqueId : Int64 := 0
  uniqueHash : Bytes := []
  accountId : Int64 := 0
  platformType : Int := 0
  accountType : Int := 0
  currency : Int := 0
  symbol : Bytes := []
  signalName : Bytes := []
  userData : Bytes := []
  comment : Bytes := []
  optionType : Int := 0
  orderType : Int := 0
  amount : Double := 0
  refund : Double := 0
  minPayout : Double := 0
  duration : UInt32 := 0
  expiryTime : Int64 := 0
  status : Int := 0
  rejectCode : Int := 0
  rejectDesc : Bytes := []
  outcome : Int := 0
  tradeState : Int := 0
  totalAmount : Double := 0
  totalProfit : Double := 0
  createDate : Int64 := 0
  acceptDate : Int64 := 0
  rejectDate : Int64 := 0
  completeDate : Int64 := 0
  mmType : Int := 0
  mmStep : Int32 := 0
  mmGroupId : Int64 := 0
  mmGroupHash : Bytes := []
  mmGroupName : Bytes := []
  mmParamsJson : Bytes := []
  decisionParamsJson : Bytes := []
  metadataJson : Bytes := []
  tradeIds : List UInt32 := []

/-! ## Writing -/

def appendValue {α : Type} [Scalar α] (value : α) : Writer Unit := appendBytes (encodeScalar value)

/-- The low byte of an enumeration's number. -/
def enum8 (value : Int) : UInt8 := UInt8.ofNat (value % 256).toNat

def appendSized (tooLarge : String) (size : Nat) (bytes : Bytes) : Writer Unit := do
  if size > 4294967295 then throw tooLarge
  else
    appendValue (UInt32.ofNat size)
    appendBytes bytes

namespace TradeRecord

def kBinaryMagic : UInt32 := 0x5254584f

def kBinaryVersion : UInt16 := 1

def appendEnum8 (value : Int) : Writer Unit :=
  if value > 255 then throw "TradeRecord: enum value exceeds uint8_t range" else appendValue (enum8 value)

def appendString (value : Bytes) : Writer Unit :=
  appendSized "TradeRecord string field is too large to serialize" value.length value

def append (r : TradeRecord) : Writer Unit := do
  appendValue kBinaryMagic
  appendValue kBinaryVersion
  appendValue r.tradeId
  appendValue r.signalId
  appendValue r.bridgeId
  appendValue r.uniqueId
  appendString r.uniqueHash
  appendValue r.accountId
  appendValue r.optionId
  appendString r.optionHash
  appendEnum8 r.platformType
  appendEnum8 r.accountType
  appendEnum8 r.currency
  appendString r.symbol
  appendString r.signalName
  appendString r.userData
  appendString r.comment
  appendEnum8 r.optionType
  appendEnum8 r.orderType
  appendValue r.amount
  appendValue r.refund
  appendValue r.minPayout
  appendValue r.payout
  appendValue r.profit
  appendValue r.openBalance
  appendValue r.closeBalance
  appendEnum8 r.tradeState
  appendEnum8 r.liveState
  appendEnum8 r.errorCode
  appendString r.errorDesc
  appendValue r.openPrice
  appendValue r.closePrice
  appendValue r.delay
  appendValue r.ping
  appendValue r.placeDate
  appendValue r.sendDate
  appendValue r.openDate
  appendValue r.closeDate
  appendValue r.duration
  appendEnum8 r.mmType
  appendValue r.mmStep
  appendValue r.mmGroupId
  appendString r.mmGroupHash
  appendString r.mmGroupName
  appendString r.mmParamsJson
  appendString r.decisionParamsJson
  appendString r.metadataJson
  appendValue r.flags
  appendValue r.spread.raw
  appendValue r.spread.digits

def toBytes (r : TradeRecord) : Except String Bytes := writeAll r.append

end TradeRecord

namespace SignalRecord

def kBinaryMagic : UInt32 := 0x5253584f

def kBinaryVersion : UInt16 := 1

/-- Unlike that of a trade record, this one does not check the number. -/
def appendEnum8 (value : Int) : Writer Unit := appendValue (enum8 value)

def appendString (value : Bytes) : Writer Unit :=
  appendSized "SignalRecord string field is too large to serialize" value.length value

def appendVectorU32 (values : List UInt32) : Writer Unit :=
  appendSized "SignalRecord vector field is too large to serialize" values.length (values.flatMap encodeScalar)

def append (r : SignalRecord) : Writer Unit := do
  appendValue kBinaryMagic
  appendValue kBinaryVersion
  appendValue r.signalId
  appendValue r.bridgeId
  appendValue r.uniqueId
  appendString r.uniqueHash
  appendValue r.accountId
  appendEnum8 r.platformType
  appendEnum8 r.accountType
  appendEnum8 r.currency
  appendString r.symbol
  appendString r.signalName
  appendString r.userData
  appendString r.comment
  appendEnum8 r.optionType
  appendEnum8 r.orderType
  appendValue r.amount
  appendValue r.refund
  appendValue r.minPayout
  appendValue r.duration
  appendValue r.expiryTime
  appendEnum8 r.status
  appendEnum8 r.rejectCode
  appendString r.rejectDesc
  appendEnum8 r.outcome
  appendEnum8 r.tradeState
  appendValue r.totalAmount
  appendValue r.totalProfit
  appendValue r.createDate
  appendValue r.acceptDate
  appendValue r.rejectDate
  appendValue r.completeDate
  appendEnum8 r.mmType
  appendValue r.mmStep
  appendValue r.mmGroupId
  appendString r.mmGroupHash
  appendString r.mmGroupName
  appendString r.mmParamsJson
  appendString r.decisionParamsJson
  appendString r.metadataJson
  appendVectorU32 r.tradeIds

def toBytes (r : SignalRecord) : Except String Bytes := writeAll r.append

end SignalRecord

/-! ## Reading -/

def readEnum8 (truncated : String) : Reader Int := do
  let b ← readScalar truncated UInt8
  return b.toNat

def readString (truncated : String) : Reader Bytes := do
  let length ← readScalar truncated UInt32
  readBytes truncated length.toNat

def readVectorU32 (corrupted truncated : String) : Reader (List UInt32) := do
  let length ← readScalar truncated UInt32
  let left ← remaining
  if length.toNat > left / 4 then fail corrupted else readMany truncated UInt32 length.toNat

/-- A number in front that has to be `known`. -/
def readKnown {α : Type} [Scalar α] [DecidableEq α] (truncated refused : String) (known : α) : Reader Unit := do
  let value ← readScalar truncated α
  if value ≠ known then fail refused else return ()

namespace TradeRecord

def truncated : String := "TradeRecord::from_bytes: corrupted or truncated data"

def read : Reader TradeRecord := do
  readKnown truncated "TradeRecord::from_bytes: invalid magic" kBinaryMagic
  readKnown truncated "TradeRecord::from_bytes: unsupported version" kBinaryVersion
  let tradeId ← readScalar truncated UInt32
  let signalId ← readScalar truncated UInt32
  let bridgeId ← readScalar truncated UInt32
  let uniqueId ← readScalar truncated Int64
  let uniqueHash ← readString truncated
  let accountId ← readScalar truncated Int64
  let optionId ← readScalar truncated Int64
  let optionHash ← readString truncated
  let platformType ← readEnum8 truncated
  let accountType ← readEnum8 truncated
  let currency ← readEnum8 truncated
  let symbol ← readString truncated
  let signalName ← readString truncated
  let userData ← readString truncated
  let comment ← readString truncated
  let optionType ← readEnum8 truncated
  let orderType ← readEnum8 truncated
  let amount ← readScalar truncated Double
  let refund ← readScalar truncated Double
  let minPayout ← readScalar truncated Double
  let payout ← readScalar truncated Double
  let profit ← readScalar truncated Double
  let openBalance ← readScalar truncated Double
  let closeBalance ← readScalar truncated Double
  let tradeState ← readEnum8 truncated
  let liveState ← readEnum8 truncated
  let errorCode ← readEnum8 truncated
  let errorDesc ← readString truncated
  let openPrice ← readScalar truncated Double
  let closePrice ← readScalar truncated Double
  let delay ← readScalar truncated Int64
  let ping ← readScalar truncated Int64
  let placeDate ← readScalar truncated Int64
  let sendDate ← readScalar truncated Int64
  let openDate ← readScalar truncated Int64
  let closeDate ← readScalar truncated Int64
  let duration ← readScalar truncated UInt32
  let mmType ← readEnum8 truncated
  let mmStep ← readScalar truncated Int32
  let mmGroupId ← readScalar truncated Int64
  let mmGroupHash ← readString truncated
  let mmGroupName ← readString truncated
  let mmParamsJson ← readString truncated
  let decisionParamsJson ← readString truncated
  let metadataJson ← readString truncated
  let flags ← readScalar truncated UInt8
  let raw ← readScalar truncated UInt64
  let digits ← readScalar truncated UInt8
  return {
    tradeId, signalId, bridgeId, uniqueId, uniqueHash, accountId, optionId, optionHash, platformType, accountType,
    currency, symbol, signalName, userData, comment, optionType, orderType, amount, refund, minPayout, payout, profit,
    openBalance, closeBalance, tradeState, liveState, errorCode, errorDesc, openPrice, closePrice, delay, ping,
    placeDate, sendDate, openDate, closeDate, duration, mmType, mmStep, mmGroupId, mmGroupHash, mmGroupName,
    mmParamsJson, decisionParamsJson, metadataJson, flags, spread := { raw, digits } }

def fromBytes (data : Bytes) : Except ReadError TradeRecord :=
  readAll "TradeRecord::from_bytes: trailing data" read data

end TradeRecord

namespace SignalRecord

def truncated : String := "SignalRecord::from_bytes: corrupted or truncated data"

def read : Reader SignalRecord := do
  readKnown truncated "SignalRecord::from_bytes: invalid magic" kBinaryMagic
  readKnown truncated "SignalRecord::from_bytes: unsupported version" kBinaryVersion
  let signalId ← readScalar truncated UInt32
  let bridgeId ← readScalar truncated UInt32
  let uniqueId ← readScalar truncated Int64
  let uniqueHash ← readString truncated
  let accountId ← readScalar truncated Int64
  let platformType ← readEnum8 truncated
  let accountType ← readEnum8 truncated
  let currency ← readEnum8 truncated
  let symbol ← readString truncated
  let signalName ← readString truncated
  let userData ← readString truncated
  let comment ← readString truncated
  let optionType ← readEnum8 truncated
  let orderType ← readEnum8 truncated
  let amount ← readScalar truncated Double
  let refund ← readScalar truncated Double
  let minPayout ← readScalar truncated Double
  let duration ← readScalar truncated UInt32
  let expiryTime ← readScalar truncated Int64
  let status ← readEnum8 truncated
  let rejectCode ← readEnum8 truncated
  let rejectDesc ← readString truncated
  let outcome ← readEnum8 truncated
  let tradeState ← readEnum8 truncated
  let totalAmount ← readScalar truncated Double
  let totalProfit ← readScalar truncated Double
  let createDate ← readScalar truncated Int64
  let acceptDate ← readScalar truncated Int64
  let rejectDate ← readScalar truncated Int64
  let completeDate ← readScalar truncated Int64
  let mmType ← readEnum8 truncated
  let mmStep ← readScalar truncated Int32
  let mmGroupId ← readScalar truncated Int64
  let mmGroupHash ← readString truncated
  let mmGroupName ← readString truncated
  let mmParamsJson ← readString truncated
  let decisionParamsJson ← readString truncated
  let metadataJson ← readString truncated
  let tradeIds ← readVectorU32 "SignalRecord::from_bytes: corrupted vector length" truncated
  return {
    signalId, bridgeId, uniqueId, uniqueHash, accountId, platformType, accountType, currency, symbol, signalName,
    userData, comment, optionType, orderType, amount, refund, minPayout, duration, expiryTime, status, rejectCode,
    rejectDesc, outcome, tradeState, totalAmount, totalProfit, createDate, acceptDate, rejectDate, completeDate, mmType,
    mmStep, mmGroupId, mmGroupHash, mmGroupName, mmParamsJson, decisionParamsJson, metadataJson, tradeIds }

def fromBytes (data : Bytes) : Except ReadError SignalRecord :=
  readAll "SignalRecord::from_bytes: trailing data" read data

end SignalRecord

/-! ## What can be written -/

def Enum8 (value : Int) : Prop := 0 ≤ value ∧ value ≤ 255

def Sized {α : Type} (values : List α) : Prop := values.length ≤ 4294967295

structure TradeRecord.Fits (r : TradeRecord) : Prop where
  uniqueHash : Sized r.uniqueHash
  optionHash : Sized r.optionHash
  platformType : Enum8 r.platformType
  accountType : Enum8 r.accountType
  currency : Enum8 r.currency
  symbol : Sized r.symbol
  signalName : Sized r.signalName
  userData : Sized r.userData
  comment : Sized r.comment
  optionType : Enum8 r.optionType
  orderType : Enum8 r.orderType
  tradeState : Enum8 r.tradeState
  liveState : Enum8 r.liveState
  errorCode : Enum8 r.errorCode
  errorDesc : Sized r.errorDesc
  mmType : Enum8 r.mmType
  mmGroupHash : Sized r.mmGroupHash
  mmGroupName : Sized r.mmGroupName
  mmParamsJson : Sized r.mmParamsJson
  decisionParamsJson : Sized r.decisionParamsJson
  metadataJson : Sized r.metadataJson

structure SignalRecord.Fits (r : SignalRecord) : Prop where
  uniqueHash : Sized r.uniqueHash
  platformType : Enum8 r.platformType
  accountType : Enum8 r.accountType
  currency : Enum8 r.currency
  symbol : Sized r.symbol
  signalName : Sized r.signalName
  userData : Sized r.userData
  comment : Sized r.comment
  optionType : Enum8 r.optionType
  orderType : Enum8 r.orderType
  status : Enum8 r.status
  rejectCode : Enum8 r.rejectCode
  rejectDesc : Sized r.rejectDesc
  outcome : Enum8 r.outcome
  tradeState : Enum8 r.tradeState
  mmType : Enum8 r.mmType
  mmGroupHash : Sized r.mmGroupHash
  mmGroupName : Sized r.mmGroupName
  mmParamsJson : Sized r.mmParamsJson
  decisionParamsJson : Sized r.decisionParamsJson
  metadataJson : Sized r.metadataJson
  tradeIds : Sized r.tradeIds

end OptionX.Records.Binary
