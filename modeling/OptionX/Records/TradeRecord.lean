import OptionX.Storage.TradeRecordDB

/-!
# Trade records

The fields of `TradeRecord.hpp` that queries and statistics read, and the traits of trade states. Amounts are doubles in
the source, of which the queries only use the order; they are an arbitrary type `F`.
-/

namespace OptionX.Records

open Storage (PlatformType)
open TradeExecution (AccountType OptionType TradeErrorCode TradeState)
open TradingSystem (CurrencyType)

structure TradeRecord (F : Type) where
  tradeId : UInt32 := 0
  signalId : UInt32 := 0
  uniqueId : Int := 0
  accountId : Int := 0
  optionId : Int := 0
  platformType : PlatformType := .unknown
  accountType : AccountType := .unknown
  currency : CurrencyType := .unknown
  symbol : String := ""
  signalName : String := ""
  userData : String := ""
  mmGroupName : String := ""
  optionType : OptionType := .unknown
  orderType : TradeExecution.OrderType := .unknown
  amount : F
  payout : F
  profit : F
  openBalance : F
  closeBalance : F
  tradeState : TradeState := .unknown
  errorCode : TradeErrorCode := .success
  delay : Int := 0
  ping : Int := 0
  placeDate : Int := 0
  sendDate : Int := 0
  openDate : Int := 0
  /-- Planned or known close timestamp. -/
  closeDate : Int := 0
  /-- Requested duration in seconds; 0 means not specified. -/
  duration : UInt32 := 0
  mmStep : Int := 0
  flags : UInt8 := 0
  deriving DecidableEq

/-- A record with the defaults of the class. -/
def TradeRecord.blank (F : Type) [Zero F] : TradeRecord F :=
  { amount := 0, payout := 0, profit := 0, openBalance := 0, closeBalance := 0 }

instance {F : Type} [Zero F] : Inhabited (TradeRecord F) := ⟨.blank F⟩

def isTerminalTradeState (state : TradeState) : Bool :=
  state == .win || state == .loss || state == .standoff || state == .refund || state == .openError ||
    state == .checkError || state == .canceledTrade

def isErrorTradeState (state : TradeState) : Bool :=
  state == .openError || state == .checkError || state == .canceledTrade

def isResultState (state : TradeState) : Bool :=
  state == .win || state == .loss || state == .standoff || state == .refund

inductive TradeRecordTimeField where
  | auto | placeDate | sendDate | openDate | closeDate
  deriving DecidableEq

namespace TradeRecord

variable {F : Type} (record : TradeRecord F)

def lastInGroup : Bool := record.flags &&& 0x01 ≠ 0

def hasOpenBalance : Bool := record.flags &&& 0x02 ≠ 0

def hasCloseBalance : Bool := record.flags &&& 0x04 ≠ 0

/-- `selected_timestamp_ms`, and `select_timestamp_ms` in mode `AUTO`. -/
def selectedTimestampMs : Int :=
  if 0 < record.placeDate then record.placeDate
  else if 0 < record.sendDate then record.sendDate
  else if 0 < record.openDate then record.openDate
  else if 0 < record.closeDate then record.closeDate
  else 0

def selectTimestampMs : TradeRecordTimeField → Int
  | .placeDate => record.placeDate
  | .sendDate => record.sendDate
  | .openDate => record.openDate
  | .closeDate => record.closeDate
  | .auto => record.selectedTimestampMs

theorem selectedTimestampMs_nonneg : 0 ≤ record.selectedTimestampMs := by
  unfold selectedTimestampMs
  split_ifs <;> omega

end TradeRecord

end OptionX.Records
