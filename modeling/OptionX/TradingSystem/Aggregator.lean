import OptionX.Lib.OrderedMap
import OptionX.TradingSystem.Types

/-!
# The execution-group aggregator

`ExecutionGroupAggregator.hpp`: a fixed roster of physical members, one event per settlement id, and a net
profit summed in two unsigned limbs per sign.
-/

namespace OptionX.TradingSystem

open Lib (OrderedMap)

/-- One sign's magnitude, in two limbs. -/
structure Magnitude where
  low : UInt64 := 0
  high : UInt64 := 0
  deriving DecidableEq, Repr

def Magnitude.add (m : Magnitude) (units : UInt64) : Magnitude :=
  let low := m.low + units
  ⟨low, if low < m.low then m.high + 1 else m.high⟩

def Magnitude.lessThan (m other : Magnitude) : Bool :=
  m.high < other.high || (m.high == other.high && m.low < other.low)

def Magnitude.subtract (m other : Magnitude) : Magnitude :=
  ⟨m.low - other.low, m.high - other.high - (if m.low < other.low then 1 else 0)⟩

structure NetAccumulator where
  positive : Magnitude := {}
  negative : Magnitude := {}
  deriving DecidableEq, Repr

def NetAccumulator.add (a : NetAccumulator) (units : Int64) : NetAccumulator :=
  if units < 0 then { a with negative := a.negative.add ((-(units + 1)).toUInt64 + 1) }
  else { a with positive := a.positive.add units.toUInt64 }

/-- The accumulated sum, when a signed word holds it. -/
def NetAccumulator.toUnits (a : NetAccumulator) : Option Int64 :=
  let negative := a.positive.lessThan a.negative
  let magnitude := if negative then a.negative.subtract a.positive else a.positive.subtract a.negative
  let maximum : UInt64 := Int64.maxValue.toUInt64
  if magnitude.high != 0 || maximum + (if negative then 1 else 0) < magnitude.low then none
  else if negative && magnitude.low == maximum + 1 then some Int64.minValue
  else
    let value := magnitude.low.toInt64
    some (if negative then -value else value)

structure ExecutionGroupAggregator where
  intentId : IntentId := 0
  group : ExecutionGroupIdentity := {}
  zero : MoneyAmount := {}
  valid : Bool := false
  outcome : GroupOutcome := {}
  members : OrderedMap UInt64 (Option TradeSettlement) := .empty
  receipts : OrderedMap SettlementId TradeSettlement := .empty

namespace ExecutionGroupAggregator

/-- The constructor's loop over the roster: it stops at a zero or repeated trade id. -/
def enroll (a : ExecutionGroupAggregator) : List UInt64 → ExecutionGroupAggregator
  | [] => { a with valid := true }
  | tradeId :: rest =>
      if tradeId == 0 || a.members.contains tradeId then a
      else enroll { a with members := a.members.emplace tradeId none } rest

def create (intentId : IntentId) (group : ExecutionGroupIdentity) (tradeIds : List UInt64)
    (currency : CurrencyType) (precision : UInt8 := 2) : ExecutionGroupAggregator :=
  let a : ExecutionGroupAggregator := { intentId, group, zero := ⟨0, precision, currency⟩ }
  if intentId == 0 || !a.zero.validMetadata || tradeIds.isEmpty ||
      tradeIds.length != group.expectedMembers.toNat ||
      (1 < tradeIds.length && group.groupId == 0) then a
  else a.enroll tradeIds

/-- What the loop of `aggregate` has collected so far. -/
structure Tally where
  unresolved : Bool := false
  completedMembers : UInt32 := 0
  hasExecution : Bool := false
  hasRejection : Bool := false
  accumulator : NetAccumulator := {}
  deriving DecidableEq, Repr

def Tally.add (t : Tally) : Option TradeSettlement → Tally
  | none => t
  | some event =>
      if !event.terminal then { t with unresolved := true }
      else
        let t := { t with
          completedMembers := t.completedMembers + 1
          hasRejection := t.hasRejection || event.kind == .rejected }
        match event.netProfit with
        | none => t
        | some m => { t with hasExecution := true, accumulator := t.accumulator.add m.units }

def tally (a : ExecutionGroupAggregator) : Tally := a.members.values.foldl Tally.add {}

/-- The kind of a final group: the sign of its net profit, when anything was executed. -/
def finalKind (hasRejection : Bool) : Option MoneyAmount → OutcomeKind
  | some sum => if 0 < sum.units then .win else if sum.units < 0 then .loss else .draw
  | none => if hasRejection then .rejected else .cancelled

/-- The end of `aggregate`, once the net profit is known. -/
def conclude (t : Tally) (allMembersTerminal : Bool) (netProfit : Option MoneyAmount) : GroupOutcome :=
  let result : GroupOutcome :=
    { final := allMembersTerminal, unresolved := t.unresolved, allMembersTerminal,
      completedMembers := t.completedMembers, netProfit }
  if !allMembersTerminal then result
  else { result with aggregationStatus := .ready, kind := some (finalKind t.hasRejection netProfit) }

def aggregate (a : ExecutionGroupAggregator) : GroupOutcome :=
  let t := a.tally
  let allMembersTerminal := t.completedMembers == a.group.expectedMembers
  if t.hasExecution then
    match t.accumulator.toUnits with
    | none =>
        { unresolved := t.unresolved, allMembersTerminal, completedMembers := t.completedMembers,
          aggregationStatus := .numericOverflow }
    | some units => conclude t allMembersTerminal (some { a.zero with units })
  else conclude t allMembersTerminal none

/-- The checks of `apply` before it changes anything. -/
def check (a : ExecutionGroupAggregator) (event : TradeSettlement) : ProgressionResult :=
  match a.receipts.find? event.settlementId with
  | some receipt => if receipt == event then .duplicate else .settlementConflict
  | none =>
      if !a.valid then .invalidConfiguration
      else if !event.valid then .invalidOutcome
      else if event.intentId != a.intentId || event.executionGroupId != a.group.groupId then
        .wrongOperation
      else
        match a.members.find? event.tradeId with
        | none => .unknownMember
        | some member =>
            if member.any (·.terminal) then .memberAlreadyTerminal
            else
              match event.netProfit with
              | none => .applied
              | some m =>
                  if m.currency != a.zero.currency then .currencyMismatch
                  else if m.precision != a.zero.precision then .precisionMismatch
                  else .applied

/-- Records an accepted event and recomputes the outcome. -/
def record (a : ExecutionGroupAggregator) (event : TradeSettlement) : ExecutionGroupAggregator :=
  let a := { a with members := a.members.set event.tradeId (some event) }
  { a with outcome := a.aggregate, receipts := a.receipts.emplace event.settlementId event }

/-- Applies one event; on anything but `applied` the aggregator is unchanged. -/
def apply (a : ExecutionGroupAggregator) (event : TradeSettlement) :
    ExecutionGroupAggregator × ProgressionResult :=
  match a.check event with
  | .applied => (a.record event, .applied)
  | result => (a, result)

theorem apply_fst (a : ExecutionGroupAggregator) (event : TradeSettlement) :
    (a.apply event).1 = if a.check event = .applied then a.record event else a := by
  unfold apply
  cases a.check event <;> simp

@[simp] theorem apply_snd (a : ExecutionGroupAggregator) (event : TradeSettlement) :
    (a.apply event).2 = a.check event := by
  unfold apply
  cases h : a.check event <;> rfl

end ExecutionGroupAggregator

end OptionX.TradingSystem
