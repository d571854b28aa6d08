import OptionX.Lib.FixedWidth

/-!
# Identities, money and settlements

The values that the trading-system owners exchange: `Identity.hpp`, the money type of `PolicyTypes.hpp`,
`TradeIntent.hpp`, `TradeSeries.hpp` and `Settlement.hpp`. The broker request inside an intent is left out:
no owner reads it.
-/

namespace OptionX.TradingSystem

abbrev IntentId := UInt64
abbrev SeriesId := UInt64
abbrev SignalId := UInt32
abbrev ExecutionGroupId := UInt64
abbrev SettlementId := UInt64

inductive IntentStatus where
  | proposed | rejected | admitted | submitting | executionUnknown | executed | settled | cancelled
  deriving DecidableEq, Repr

inductive ExecutionCardinality where
  | zeroOrOne | exactlyOne | multiple | splitGroup
  deriving DecidableEq, Repr

structure ExecutionGroupIdentity where
  groupId : ExecutionGroupId := 0
  expectedMembers : UInt32 := 0
  deriving DecidableEq, Repr

def ExecutionGroupIdentity.validFor (g : ExecutionGroupIdentity) : ExecutionCardinality → Bool
  | .zeroOrOne => g.groupId == 0 && g.expectedMembers ≤ 1
  | .exactlyOne => g.expectedMembers == 1
  | .multiple => g.groupId != 0 && 2 ≤ g.expectedMembers
  | .splitGroup => g.groupId != 0 && 2 ≤ g.expectedMembers

inductive CurrencyType where
  | unknown | usd | eur | gbp | btc | eth | usdt | usdc | rub | uah | kzt
  deriving DecidableEq, Repr

def maxMoneyPrecision : UInt8 := 18

/-- A fixed-point amount: `units` is the amount multiplied by `10 ^ precision`. -/
structure MoneyAmount where
  units : Int64 := 0
  precision : UInt8 := 2
  currency : CurrencyType := .unknown
  deriving DecidableEq, Repr

def MoneyAmount.validMetadata (m : MoneyAmount) : Bool :=
  m.precision ≤ maxMoneyPrecision && m.currency != .unknown

/-- The comparison that the risk owner uses: currency and precision, never the units. -/
def sameCurrency (lhs rhs : MoneyAmount) : Bool :=
  lhs.currency == rhs.currency && lhs.precision == rhs.precision

structure TradeIntent where
  intentId : IntentId := 0
  originSignalId : SignalId := 0
  seriesId : SeriesId := 0
  seriesStep : Int32 := -1
  executionGroup : ExecutionGroupIdentity := {}
  cardinality : ExecutionCardinality := .zeroOrOne
  status : IntentStatus := .proposed
  idempotencyKey : String := ""
  deriving DecidableEq, Repr

def TradeIntent.valid (i : TradeIntent) : Bool :=
  let standalone := i.seriesId == 0 && i.seriesStep == -1
  let seriesBound := i.seriesId != 0 && (0 : Int32) ≤ i.seriesStep
  i.intentId != 0 && (standalone || seriesBound) && !i.idempotencyKey.isEmpty &&
    i.executionGroup.validFor i.cardinality

structure TradeSeries where
  seriesId : SeriesId := 0
  originSignalId : SignalId := 0
  nextStep : UInt32 := 0
  stateRevision : UInt64 := 0
  deriving DecidableEq, Repr

def TradeSeries.valid (s : TradeSeries) : Bool := s.seriesId != 0

/-! ## Settlements -/

inductive OutcomeKind where
  | win | loss | draw | rejected | cancelled | unknown
  deriving DecidableEq, Repr

inductive ExecutionEvidence where
  | notSubmitted | mayHaveExecuted | executed
  deriving DecidableEq, Repr

inductive SeriesStatus where
  | active | waitingOutcome | unresolved | completed | blockedError
  deriving DecidableEq, Repr

inductive AggregationStatus where
  | pending | ready | numericOverflow
  deriving DecidableEq, Repr

inductive ProgressionResult where
  | applied | duplicate | settlementConflict | revisionConflict | revisionOverflow | invalidState
  | invalidIdentity | invalidConfiguration | unsupportedCardinality | intentAlreadyUsed
  | wrongOperation | unknownMember | memberAlreadyTerminal | invalidOutcome | currencyMismatch
  | precisionMismatch | numericOverflow | stepLimitReached | idempotencyKeyAlreadyUsed
  deriving DecidableEq, Repr

/-- An event for one predeclared member of an execution group. Two events are compared field by field. -/
structure TradeSettlement where
  settlementId : SettlementId := 0
  intentId : IntentId := 0
  executionGroupId : ExecutionGroupId := 0
  tradeId : UInt64 := 0
  kind : OutcomeKind := .unknown
  evidence : ExecutionEvidence := .mayHaveExecuted
  netProfit : Option MoneyAmount := none
  deriving DecidableEq, Repr

def TradeSettlement.isTradingResult (e : TradeSettlement) : Bool :=
  e.kind == .win || e.kind == .loss || e.kind == .draw

def TradeSettlement.terminal (e : TradeSettlement) : Bool := e.kind != .unknown

def TradeSettlement.valid (e : TradeSettlement) : Bool :=
  if e.settlementId == 0 || e.intentId == 0 || e.tradeId == 0 then false
  else if e.isTradingResult then
    match e.netProfit with
    | none => false
    | some m =>
        e.evidence == .executed && m.validMetadata &&
          ((e.kind == .win && 0 < m.units) || (e.kind == .loss && m.units < 0) ||
            (e.kind == .draw && m.units == 0))
  else if e.netProfit.isSome then false
  else if e.kind == .unknown then e.evidence == .mayHaveExecuted
  else (e.kind == .rejected || e.kind == .cancelled) && e.evidence == .notSubmitted

/-- A value snapshot of a group; partial money never makes it final. -/
structure GroupOutcome where
  final : Bool := false
  unresolved : Bool := false
  allMembersTerminal : Bool := false
  completedMembers : UInt32 := 0
  aggregationStatus : AggregationStatus := .pending
  kind : Option OutcomeKind := none
  netProfit : Option MoneyAmount := none
  deriving DecidableEq, Repr

/-! ## Small facts about these values -/

@[simp] theorem sameCurrency_iff {a b : MoneyAmount} :
    sameCurrency a b = true ↔ a.currency = b.currency ∧ a.precision = b.precision := by
  simp [sameCurrency]

/-- Validity of the metadata reads the currency and the precision only. -/
theorem MoneyAmount.validMetadata_congr {a b : MoneyAmount} (h : sameCurrency a b = true) :
    a.validMetadata = b.validMetadata := by
  obtain ⟨hc, hp⟩ := sameCurrency_iff.mp h
  simp [MoneyAmount.validMetadata, hc, hp]

theorem TradeSettlement.valid_ids {e : TradeSettlement} (h : e.valid = true) :
    e.settlementId ≠ 0 ∧ e.intentId ≠ 0 ∧ e.tradeId ≠ 0 := by
  unfold TradeSettlement.valid at h
  split at h
  · cases h
  · rename_i hz
    simpa [not_or, and_assoc] using hz

/-- A valid event carries money exactly when it is a trading result. -/
theorem TradeSettlement.valid_money {e : TradeSettlement} (h : e.valid = true) :
    e.netProfit.isSome = e.isTradingResult := by
  unfold TradeSettlement.valid at h
  split at h
  · cases h
  · split at h
    · rename_i hr
      cases hm : e.netProfit with
      | none => simp [hm] at h
      | some m => simp [hr]
    · rename_i hr
      split at h
      · cases h
      · rename_i hn
        simp only [Bool.not_eq_true] at hr hn
        rw [hr, hn]

/-- A terminal event without money was rejected or cancelled. -/
theorem TradeSettlement.valid_noExecution {e : TradeSettlement} (h : e.valid = true)
    (ht : e.terminal = true) (hn : e.netProfit = none) : e.kind = .rejected ∨ e.kind = .cancelled := by
  have hm := valid_money h
  simp only [hn, Option.isSome_none, isTradingResult, Bool.false_eq, Bool.or_eq_false_iff,
    beq_eq_false_iff_ne] at hm
  simp only [terminal, bne_iff_ne, ne_eq] at ht
  cases hk : e.kind <;> simp_all

end OptionX.TradingSystem
