import OptionX.TradingSystem.Aggregator

/-!
# Risk admission

`RiskAdmission.hpp`: the owner of the reservations of one risk scope. Its calls are atomic, so a run is a
sequence of them; `settle` checks its evidence against the caller's token before it looks at the owner's
own record.
-/

namespace OptionX.TradingSystem

open Lib (OrderedMap OrderedSet)

inductive RiskScopeKind where
  | account | strategy | group
  deriving DecidableEq, Repr

structure RiskScope where
  kind : RiskScopeKind := .account
  scopeId : UInt64 := 0
  deriving DecidableEq, Repr

def RiskScope.valid (s : RiskScope) : Bool := s.scopeId != 0

inductive RiskAvailability where
  | supported | unavailable | stale
  deriving DecidableEq, Repr

/-- Provider-owned account facts. -/
structure RiskAccountSnapshot where
  availability : RiskAvailability := .unavailable
  availableBalance : MoneyAmount := {}
  capturedAtMs : Int64 := 0
  revision : UInt64 := 0
  deriving DecidableEq, Repr

def RiskAccountSnapshot.valid (s : RiskAccountSnapshot) : Bool :=
  s.availability == .supported && s.availableBalance.validMetadata && 0 ≤ s.availableBalance.units

structure RiskAdmissionConfig where
  scope : RiskScope := {}
  maxSnapshotAgeMs : Int64 := 30000
  maxReservedRisk : Option MoneyAmount := none
  deriving DecidableEq, Repr

def RiskAdmissionConfig.valid (c : RiskAdmissionConfig) : Bool :=
  c.scope.valid && 0 ≤ c.maxSnapshotAgeMs &&
    c.maxReservedRisk.all (fun m => m.validMetadata && 0 < m.units)

/-- One logical reservation; the potential risk covers the complete group. -/
structure RiskRequest where
  intentId : IntentId := 0
  executionGroup : ExecutionGroupIdentity := {}
  cardinality : ExecutionCardinality := .zeroOrOne
  intentStatus : IntentStatus := .proposed
  idempotencyKey : String := ""
  stake : MoneyAmount := {}
  potentialRisk : MoneyAmount := {}
  deriving DecidableEq, Repr

def RiskRequest.fromIntent (intent : TradeIntent) (stake potentialRisk : MoneyAmount) :
    RiskRequest where
  intentId := intent.intentId
  executionGroup := intent.executionGroup
  cardinality := intent.cardinality
  intentStatus := intent.status
  idempotencyKey := intent.idempotencyKey
  stake := stake
  potentialRisk := potentialRisk

def RiskRequest.validIdentity (r : RiskRequest) : Bool :=
  r.intentId != 0 && !r.idempotencyKey.isEmpty && r.executionGroup.validFor r.cardinality &&
    (r.intentStatus == .proposed || r.intentStatus == .admitted)

inductive RiskReservationState where
  | reserved | submitted | executionUnknown | released | settled
  deriving DecidableEq, Repr

inductive RiskAdmissionKind where
  | admitted | applied | duplicate | rejected | unavailable | conflict | invalidState
  deriving DecidableEq, Repr

inductive RiskAdmissionReason where
  | none | reserved | committed | released | executionUnknown | settled | invalidConfiguration
  | invalidRequest | invalidRisk | currencyMismatch | precisionMismatch | snapshotUnavailable
  | snapshotStale | balanceLimitExceeded | riskLimitExceeded | numericOverflow | unknownReservation
  | invalidTransition | payloadConflict | revisionConflict | invalidSettlementEvidence
  deriving DecidableEq, Repr

structure RiskReservation where
  reservationId : UInt64 := 0
  scope : RiskScope := {}
  intentId : IntentId := 0
  executionGroup : ExecutionGroupIdentity := {}
  cardinality : ExecutionCardinality := .zeroOrOne
  idempotencyKey : String := ""
  stake : MoneyAmount := {}
  potentialRisk : MoneyAmount := {}
  state : RiskReservationState := .released
  accountRevision : UInt64 := 0
  deriving DecidableEq, Repr

/-! ## Settlement evidence -/

structure RiskSettlementEvidence where
  reservationId : UInt64 := 0
  intentId : IntentId := 0
  executionGroup : ExecutionGroupIdentity := {}
  outcome : GroupOutcome := {}
  settlements : List TradeSettlement := []

namespace RiskSettlementEvidence

/-- The loop that collects the trade ids: it fails on a bad event and on a repeated id. -/
def collect (intentId : IntentId) (groupId : ExecutionGroupId) (settlementIds : OrderedSet SettlementId)
    (tradeIds : OrderedSet UInt64) : List TradeSettlement → Option (OrderedSet UInt64)
  | [] => some tradeIds
  | settlement :: rest =>
      if !settlement.valid || !settlement.terminal || settlement.intentId != intentId ||
          settlement.executionGroupId != groupId ||
          settlementIds.contains settlement.settlementId || tradeIds.contains settlement.tradeId then
        none
      else
        collect intentId groupId (settlementIds.emplace settlement.settlementId ())
          (tradeIds.emplace settlement.tradeId ()) rest

/-- The loop that replays the settlements: every one has to be applied. -/
def replay (aggregator : ExecutionGroupAggregator) :
    List TradeSettlement → Option ExecutionGroupAggregator
  | [] => some aggregator
  | settlement :: rest =>
      match aggregator.apply settlement with
      | (aggregator, .applied) => replay aggregator rest
      | _ => none

def sameOutcome (lhs rhs : GroupOutcome) : Bool :=
  if lhs.final != rhs.final || lhs.unresolved != rhs.unresolved ||
      lhs.allMembersTerminal != rhs.allMembersTerminal ||
      lhs.completedMembers != rhs.completedMembers ||
      lhs.aggregationStatus != rhs.aggregationStatus || lhs.kind != rhs.kind ||
      lhs.netProfit.isSome != rhs.netProfit.isSome then false
  else
    match lhs.netProfit, rhs.netProfit with
    | some l, some r => l.units == r.units && l.precision == r.precision && l.currency == r.currency
    | _, _ => true

def validFor (evidence : RiskSettlementEvidence) (reservation : RiskReservation) : Bool :=
  if evidence.reservationId != reservation.reservationId ||
      evidence.intentId != reservation.intentId ||
      evidence.executionGroup.groupId != reservation.executionGroup.groupId ||
      evidence.executionGroup.expectedMembers != reservation.executionGroup.expectedMembers ||
      !evidence.outcome.final || !evidence.outcome.allMembersTerminal ||
      evidence.outcome.unresolved || evidence.outcome.aggregationStatus != .ready ||
      evidence.outcome.kind.isNone ||
      evidence.outcome.completedMembers != evidence.executionGroup.expectedMembers ||
      evidence.settlements.length != evidence.executionGroup.expectedMembers.toNat then false
  else
    match collect evidence.intentId evidence.executionGroup.groupId .empty .empty
      evidence.settlements with
    | none => false
    | some tradeIds =>
        let aggregator := ExecutionGroupAggregator.create reservation.intentId
          reservation.executionGroup tradeIds.keys reservation.potentialRisk.currency
          reservation.potentialRisk.precision
        if !aggregator.valid then false
        else
          match replay aggregator evidence.settlements with
          | none => false
          | some aggregator =>
              if aggregator.outcome.aggregationStatus != .ready then false
              else sameOutcome aggregator.outcome evidence.outcome

end RiskSettlementEvidence

structure RiskAdmissionResult where
  kind : RiskAdmissionKind := .invalidState
  reason : RiskAdmissionReason := .invalidConfiguration
  reservation : Option RiskReservation := none
  deriving DecidableEq, Repr

namespace RiskAdmissionResult

def applied (reason : RiskAdmissionReason) (reservation : RiskReservation) : RiskAdmissionResult :=
  ⟨.applied, reason, some reservation⟩

def admitted (reservation : RiskReservation) : RiskAdmissionResult :=
  ⟨.admitted, .reserved, some reservation⟩

def duplicate (reservation : RiskReservation) : RiskAdmissionResult :=
  ⟨.duplicate, .none, some reservation⟩

def rejected (reason : RiskAdmissionReason) : RiskAdmissionResult := ⟨.rejected, reason, none⟩

def unavailable (reason : RiskAdmissionReason) : RiskAdmissionResult := ⟨.unavailable, reason, none⟩

def conflict (reason : RiskAdmissionReason) : RiskAdmissionResult := ⟨.conflict, reason, none⟩

def invalidState (reason : RiskAdmissionReason) : RiskAdmissionResult := ⟨.invalidState, reason, none⟩

end RiskAdmissionResult

/-! ## The owner -/

structure RiskAdmission where
  config : RiskAdmissionConfig
  snapshot : Option RiskAccountSnapshot := none
  nextReservationId : UInt64 := 1
  idSequenceValid : Bool := true
  idSequenceExhausted : Bool := false
  byKey : OrderedMap String RiskReservation := .empty
  byIntent : OrderedMap IntentId String := .empty

namespace RiskAdmission

def create (config : RiskAdmissionConfig) (firstReservationId : UInt64 := 1) : RiskAdmission where
  config := config
  nextReservationId := firstReservationId
  idSequenceValid := firstReservationId != 0

def valid (s : RiskAdmission) : Bool := s.config.valid && s.idSequenceValid

def canAdd (lhs rhs : Int64) : Bool := 0 ≤ rhs && lhs ≤ Int64.maxValue - rhs

/-- The loop over the reservations: it saturates when the next one cannot be added. -/
def activeRisk (total : Int64) : List RiskReservation → Int64
  | [] => total
  | r :: rest =>
      if r.state == .released || r.state == .settled then activeRisk total rest
      else if canAdd total r.potentialRisk.units then activeRisk (total + r.potentialRisk.units) rest
      else Int64.maxValue

def activeRiskUnits (s : RiskAdmission) : Int64 := activeRisk 0 s.byKey.values

def reservedRiskUnits (s : RiskAdmission) : Int64 := s.activeRiskUnits

def sameSnapshot (lhs rhs : RiskAccountSnapshot) : Bool :=
  lhs.availability == rhs.availability && lhs.availableBalance.units == rhs.availableBalance.units &&
    sameCurrency lhs.availableBalance rhs.availableBalance && lhs.capturedAtMs == rhs.capturedAtMs

/-- The reason of a refusal when the currency or the precision differs. -/
def mismatchReason (lhs rhs : MoneyAmount) : RiskAdmissionReason :=
  if lhs.currency != rhs.currency then .currencyMismatch else .precisionMismatch

def updateSnapshot (s : RiskAdmission) (snapshot : RiskAccountSnapshot) :
    RiskAdmission × RiskAdmissionResult :=
  if !s.valid || !snapshot.valid then
    (s, .unavailable (if snapshot.availability == .stale then .snapshotStale else .snapshotUnavailable))
  else
    match s.snapshot with
    | none => ({ s with snapshot := some snapshot }, ⟨.applied, .none, none⟩)
    | some stored =>
        if snapshot.revision < stored.revision then (s, .conflict .revisionConflict)
        else if snapshot.revision == stored.revision then
          if sameSnapshot stored snapshot then (s, ⟨.duplicate, .none, none⟩)
          else (s, .conflict .revisionConflict)
        else if !sameCurrency stored.availableBalance snapshot.availableBalance then
          (s, .conflict (mismatchReason stored.availableBalance snapshot.availableBalance))
        else ({ s with snapshot := some snapshot }, ⟨.applied, .none, none⟩)

def normalizedGroup (request : RiskRequest) : ExecutionGroupIdentity :=
  if request.cardinality == .zeroOrOne then { request.executionGroup with expectedMembers := 1 }
  else request.executionGroup

def sameRequest (stored : RiskReservation) (request : RiskRequest) : Bool :=
  let group := normalizedGroup request
  stored.intentId == request.intentId && stored.executionGroup.groupId == group.groupId &&
    stored.executionGroup.expectedMembers == group.expectedMembers &&
    stored.cardinality == request.cardinality && stored.stake.units == request.stake.units &&
    sameCurrency stored.stake request.stake &&
    stored.potentialRisk.units == request.potentialRisk.units &&
    sameCurrency stored.potentialRisk request.potentialRisk

/-- The limit check at the end of `reserve`, when a limit is configured. -/
def checkLimit (s : RiskAdmission) (risk : MoneyAmount) (nextReserved : Int64) :
    Except RiskAdmissionResult Unit :=
  match s.config.maxReservedRisk with
  | none => .ok ()
  | some limit =>
      if limit.currency != risk.currency then .error (.rejected .currencyMismatch)
      else if limit.precision != risk.precision then .error (.rejected .precisionMismatch)
      else if limit.units < nextReserved then .error (.rejected .riskLimitExceeded)
      else .ok ()

/-- The checks that `reserve` makes against the account snapshot. -/
def checkSnapshot (s : RiskAdmission) (request : RiskRequest) (nowMs : Int64) :
    Except RiskAdmissionResult RiskAccountSnapshot :=
  match s.snapshot with
  | none => .error (.unavailable .snapshotUnavailable)
  | some snapshot =>
      if snapshot.availability != .supported then .error (.unavailable .snapshotUnavailable)
      else if !sameCurrency snapshot.availableBalance request.potentialRisk then
        .error (.rejected (mismatchReason snapshot.availableBalance request.potentialRisk))
      else if nowMs < snapshot.capturedAtMs ||
          s.config.maxSnapshotAgeMs.toUInt64 < nowMs.toUInt64 - snapshot.capturedAtMs.toUInt64 then
        .error (.unavailable .snapshotStale)
      else if !canAdd s.activeRiskUnits request.potentialRisk.units then
        .error (.rejected .numericOverflow)
      else if snapshot.availableBalance.units < s.activeRiskUnits + request.potentialRisk.units then
        .error (.rejected .balanceLimitExceeded)
      else .ok snapshot

/-- The checks that `reserve` makes before it looks at the snapshot. -/
def checkRequest (s : RiskAdmission) (request : RiskRequest) : Except RiskAdmissionResult Unit :=
  if !s.valid then .error (.rejected .invalidConfiguration)
  else if !request.validIdentity then .error (.rejected .invalidRequest)
  else
    match s.byKey.find? request.idempotencyKey with
    | some existing =>
        if sameRequest existing request then .error (.duplicate existing)
        else .error (.conflict .payloadConflict)
    | none =>
        if s.byIntent.contains request.intentId then .error (.conflict .payloadConflict)
        else if s.idSequenceExhausted then .error (.rejected .numericOverflow)
        else if !request.stake.validMetadata || !request.potentialRisk.validMetadata then
          .error (.rejected .invalidRisk)
        else if !sameCurrency request.stake request.potentialRisk then
          .error (.rejected (mismatchReason request.stake request.potentialRisk))
        else if request.stake.units ≤ 0 || request.potentialRisk.units ≤ 0 then
          .error (.rejected .invalidRisk)
        else .ok ()

/-- The reservation that `reserve` builds. -/
def reservationFor (s : RiskAdmission) (request : RiskRequest) (snapshot : RiskAccountSnapshot) :
    RiskReservation where
  reservationId := s.nextReservationId
  scope := s.config.scope
  intentId := request.intentId
  executionGroup := normalizedGroup request
  cardinality := request.cardinality
  idempotencyKey := request.idempotencyKey
  stake := request.stake
  potentialRisk := request.potentialRisk
  state := .reserved
  accountRevision := snapshot.revision

/-- The owner after it has admitted a reservation. -/
def addReservation (s : RiskAdmission) (r : RiskReservation) : RiskAdmission :=
  let exhaustIds := r.reservationId == 18446744073709551615
  { s with
    byKey := s.byKey.emplace r.idempotencyKey r
    byIntent := s.byIntent.emplace r.intentId r.idempotencyKey
    nextReservationId := if exhaustIds then 0 else r.reservationId + 1
    idSequenceExhausted := exhaustIds }

def reserve (s : RiskAdmission) (request : RiskRequest) (nowMs : Int64) :
    RiskAdmission × RiskAdmissionResult :=
  match s.checkRequest request with
  | .error result => (s, result)
  | .ok _ =>
      match s.checkSnapshot request nowMs with
      | .error result => (s, result)
      | .ok snapshot =>
          match s.checkLimit request.potentialRisk
            (s.activeRiskUnits + request.potentialRisk.units) with
          | .error result => (s, result)
          | .ok _ =>
              let r := s.reservationFor request snapshot
              -- both keys were looked up above, so neither insertion can find them bound
              if s.byKey.contains r.idempotencyKey || s.byIntent.contains r.intentId then
                (s, .conflict .payloadConflict)
              else (s.addReservation r, .admitted r)

/-- The comparison of a caller's token with the owner's record: every field but the state and the
account revision. -/
def matchesToken (stored token : RiskReservation) : Bool :=
  stored.reservationId == token.reservationId && stored.scope.kind == token.scope.kind &&
    stored.scope.scopeId == token.scope.scopeId && stored.intentId == token.intentId &&
    stored.idempotencyKey == token.idempotencyKey &&
    stored.executionGroup.groupId == token.executionGroup.groupId &&
    stored.executionGroup.expectedMembers == token.executionGroup.expectedMembers &&
    stored.cardinality == token.cardinality && stored.stake.units == token.stake.units &&
    sameCurrency stored.stake token.stake &&
    stored.potentialRisk.units == token.potentialRisk.units &&
    sameCurrency stored.potentialRisk token.potentialRisk

def transition (s : RiskAdmission) (token : RiskReservation) (target : RiskReservationState)
    (reason : RiskAdmissionReason) (allowed : RiskReservationState → Bool) :
    RiskAdmission × RiskAdmissionResult :=
  match s.byKey.find? token.idempotencyKey with
  | none => (s, .invalidState .unknownReservation)
  | some stored =>
      if !matchesToken stored token then (s, .conflict .payloadConflict)
      else if stored.state == target then (s, .duplicate stored)
      else if !allowed stored.state then (s, .invalidState .invalidTransition)
      else
        let stored := { stored with state := target }
        ({ s with byKey := s.byKey.set token.idempotencyKey stored }, .applied reason stored)

/-- Marks submission-in-progress before any broker-side effect. -/
def commit (s : RiskAdmission) (token : RiskReservation) : RiskAdmission × RiskAdmissionResult :=
  s.transition token .submitted .committed (fun state => state == .reserved)

def release (s : RiskAdmission) (token : RiskReservation) : RiskAdmission × RiskAdmissionResult :=
  s.transition token .released .released (fun state => state == .reserved)

def markUnknown (s : RiskAdmission) (token : RiskReservation) : RiskAdmission × RiskAdmissionResult :=
  s.transition token .executionUnknown .executionUnknown
    (fun state => state == .reserved || state == .submitted)

def settle (s : RiskAdmission) (token : RiskReservation) (evidence : RiskSettlementEvidence) :
    RiskAdmission × RiskAdmissionResult :=
  if !evidence.validFor token then (s, .rejected .invalidSettlementEvidence)
  else
    s.transition token .settled .settled
      (fun state => state == .submitted || state == .executionUnknown)

inductive Call where
  | updateSnapshot (snapshot : RiskAccountSnapshot)
  | reserve (request : RiskRequest) (nowMs : Int64)
  | commit (token : RiskReservation)
  | release (token : RiskReservation)
  | markUnknown (token : RiskReservation)
  | settle (token : RiskReservation) (evidence : RiskSettlementEvidence)

def step (s : RiskAdmission) : Call → RiskAdmission × RiskAdmissionResult
  | .updateSnapshot snapshot => s.updateSnapshot snapshot
  | .reserve request nowMs => s.reserve request nowMs
  | .commit token => s.commit token
  | .release token => s.release token
  | .markUnknown token => s.markUnknown token
  | .settle token evidence => s.settle token evidence

end RiskAdmission

end OptionX.TradingSystem
