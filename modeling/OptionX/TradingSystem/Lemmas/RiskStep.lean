import OptionX.TradingSystem.RiskAdmission

/-!
# What one call of the risk owner does

Every call either changes nothing or has one of three effects: it replaces the snapshot, admits a new
reservation or moves a stored one.
-/

namespace OptionX.TradingSystem

open Lib (OrderedMap)

/-! ## The states of a reservation -/

/-- A reservation in this state keeps its risk. -/
def RiskReservationState.active : RiskReservationState → Bool
  | .reserved | .submitted | .executionUnknown => true
  | .released | .settled => false

/-- The moves of the lifecycle. -/
inductive RiskReservationState.Moves : RiskReservationState → RiskReservationState → Prop
  | commit : Moves .reserved .submitted
  | release : Moves .reserved .released
  | unknown : Moves .reserved .executionUnknown
  | lost : Moves .submitted .executionUnknown
  | settle : Moves .submitted .settled
  | reconcile : Moves .executionUnknown .settled

theorem RiskReservationState.Moves.active {a b : RiskReservationState} (h : a.Moves b) :
    a.active = true := by
  cases h <;> rfl

/-- The states of a reservation whose execution may have taken place. -/
def RiskReservationState.Exposed (st : RiskReservationState) : Prop :=
  st = .submitted ∨ st = .executionUnknown

theorem RiskReservationState.Exposed.active {st : RiskReservationState} (h : st.Exposed) :
    st.active = true := by
  rcases h with rfl | rfl <;> rfl

theorem RiskReservationState.Exposed.moves {a b : RiskReservationState} (h : a.Exposed)
    (hm : a.Moves b) : b.Exposed ∨ b = .settled := by
  cases hm <;> simp [Exposed] at h ⊢

namespace RiskAdmission

variable {s : RiskAdmission} {c : Call}

/-! ## Tokens -/

/-- A token matches the stored record in everything but the state and the account revision. -/
theorem matchesToken_iff {stored token : RiskReservation} :
    matchesToken stored token = true ↔
      token = { stored with state := token.state, accountRevision := token.accountRevision,
                            stake := token.stake, potentialRisk := token.potentialRisk } ∧
        stored.stake = token.stake ∧ stored.potentialRisk = token.potentialRisk := by
  obtain ⟨id, ⟨k, sc⟩, i, ⟨g, n⟩, c, key, ⟨u, p, cu⟩, ⟨u', p', cu'⟩, st, rev⟩ := stored
  obtain ⟨id', ⟨k', sc'⟩, i', ⟨g', n'⟩, c', key', ⟨v, q, dv⟩, ⟨v', q', dv'⟩, st', rev'⟩ := token
  simp only [matchesToken, Bool.and_eq_true, beq_iff_eq, sameCurrency_iff, RiskReservation.mk.injEq,
    RiskScope.mk.injEq, ExecutionGroupIdentity.mk.injEq, MoneyAmount.mk.injEq]
  grind

/-- A matching token has the stored record's identity and money. -/
theorem matchesToken_eq {stored token : RiskReservation} (h : matchesToken stored token = true) :
    token = { stored with state := token.state, accountRevision := token.accountRevision } := by
  obtain ⟨ht, hs, hr⟩ := matchesToken_iff.mp h
  rw [← hs, ← hr] at ht
  exact ht

/-- Evidence is checked against fields that a token shares with the stored record. -/
theorem validFor_of_matches {stored token : RiskReservation} (h : matchesToken stored token = true)
    (evidence : RiskSettlementEvidence) : evidence.validFor token = evidence.validFor stored := by
  rw [matchesToken_eq h]
  rfl

/-! ## Effects -/

/-- What a request that is admitted has passed. -/
structure Admissible (s : RiskAdmission) (request : RiskRequest) (nowMs : Int64)
    (snapshot : RiskAccountSnapshot) : Prop where
  valid : s.valid = true
  identity : request.validIdentity = true
  newKey : s.byKey.find? request.idempotencyKey = none
  newIntent : s.byIntent.find? request.intentId = none
  sequence : s.idSequenceExhausted = false
  money : request.potentialRisk.validMetadata = true
  sameStake : sameCurrency request.stake request.potentialRisk = true
  positive : 0 < request.potentialRisk.units
  stored : s.snapshot = some snapshot
  currency : sameCurrency snapshot.availableBalance request.potentialRisk = true
  notFuture : snapshot.capturedAtMs ≤ nowMs
  fresh : nowMs.toUInt64 - snapshot.capturedAtMs.toUInt64 ≤ s.config.maxSnapshotAgeMs.toUInt64
  room : canAdd s.activeRiskUnits request.potentialRisk.units = true
  balance : s.activeRiskUnits + request.potentialRisk.units ≤ snapshot.availableBalance.units
  limit : ∀ m, s.config.maxReservedRisk = some m →
    s.activeRiskUnits + request.potentialRisk.units ≤ m.units

/-- The token of a call that moves a reservation and the state it asks for. -/
def Call.move : Call → Option (RiskReservation × RiskReservationState)
  | .updateSnapshot _ | .reserve _ _ => none
  | .commit token => some (token, .submitted)
  | .release token => some (token, .released)
  | .markUnknown token => some (token, .executionUnknown)
  | .settle token _ => some (token, .settled)

/-- The owner after a stored reservation has moved. -/
def moved (s : RiskAdmission) (stored : RiskReservation) (target : RiskReservationState) :
    RiskAdmission :=
  { s with byKey := s.byKey.set stored.idempotencyKey { stored with state := target } }

/-- The calls that change the owner, with what they have checked. -/
inductive Effect (s : RiskAdmission) : Call → RiskAdmission → RiskAdmissionResult → Prop
  | snapshot {snapshot} (valid : snapshot.valid = true)
      (currency : ∀ stored, s.snapshot = some stored →
        sameCurrency stored.availableBalance snapshot.availableBalance = true) :
      Effect s (.updateSnapshot snapshot) { s with snapshot := some snapshot } ⟨.applied, .none, none⟩
  | reserve {request nowMs snapshot} (h : s.Admissible request nowMs snapshot) :
      Effect s (.reserve request nowMs) (s.addReservation (s.reservationFor request snapshot))
        (.admitted (s.reservationFor request snapshot))
  | move {call token target stored reason} (call_move : call.move = some (token, target))
      (found : s.byKey.find? token.idempotencyKey = some stored)
      (token_eq : matchesToken stored token = true) (allowed : stored.state.Moves target)
      (evidence : ∀ token evidence, call = .settle token evidence → evidence.validFor stored = true) :
      Effect s call (s.moved stored target) (.applied reason { stored with state := target })

/-- A call that changes nothing. -/
structure Refused (s s' : RiskAdmission) (result : RiskAdmissionResult) : Prop where
  unchanged : s' = s
  notAdmitted : result.kind ≠ .admitted
  notApplied : result.kind = .applied → result.reservation = none

theorem updateSnapshot_cases (s : RiskAdmission) (snapshot : RiskAccountSnapshot) :
    Refused s (s.updateSnapshot snapshot).1 (s.updateSnapshot snapshot).2 ∨
      Effect s (.updateSnapshot snapshot) (s.updateSnapshot snapshot).1
        (s.updateSnapshot snapshot).2 := by
  unfold updateSnapshot
  split
  · exact Or.inl ⟨rfl, by simp [RiskAdmissionResult.unavailable], fun _ => rfl⟩
  · rename_i hv
    simp only [Bool.or_eq_true, Bool.not_eq_true', not_or, Bool.not_eq_false] at hv
    cases hs : s.snapshot with
    | none => exact Or.inr (.snapshot hv.2 (fun stored h => by simp [hs] at h))
    | some stored =>
        dsimp only
        split
        · exact Or.inl ⟨rfl, by simp [RiskAdmissionResult.conflict], fun _ => rfl⟩
        split
        · split
          · exact Or.inl ⟨rfl, by simp, fun _ => rfl⟩
          · exact Or.inl ⟨rfl, by simp [RiskAdmissionResult.conflict], fun _ => rfl⟩
        split
        · exact Or.inl ⟨rfl, by simp [RiskAdmissionResult.conflict], fun _ => rfl⟩
        · rename_i hc
          refine Or.inr (.snapshot hv.2 (fun x hx => ?_))
          rw [hs, Option.some.injEq] at hx
          simpa [hx] using hc

theorem checkRequest_ok {request : RiskRequest} {u : Unit} (h : s.checkRequest request = .ok u) :
    s.valid = true ∧ request.validIdentity = true ∧ s.byKey.find? request.idempotencyKey = none ∧
      s.byIntent.find? request.intentId = none ∧ s.idSequenceExhausted = false ∧
      request.potentialRisk.validMetadata = true ∧
      sameCurrency request.stake request.potentialRisk = true ∧ 0 < request.potentialRisk.units := by
  unfold checkRequest at h
  split at h
  · cases h
  rename_i hv
  split at h
  · cases h
  rename_i hi
  split at h
  · split at h <;> cases h
  rename_i hk
  split at h
  · cases h
  rename_i hint
  split at h
  · cases h
  rename_i hseq
  split at h
  · cases h
  rename_i hm
  split at h
  · cases h
  rename_i hc
  split at h
  · cases h
  rename_i hu
  simp only [Bool.not_eq_true', Bool.not_eq_false, Bool.or_eq_true, not_or, Bool.not_eq_true,
    OrderedMap.contains_eq_false, decide_eq_true_eq, Int64.not_le] at hv hi hint hseq hm hc hu
  exact ⟨hv, hi, hk, hint, hseq, hm.2, hc, hu.2⟩

theorem checkSnapshot_ok {request : RiskRequest} {nowMs : Int64} {snapshot : RiskAccountSnapshot}
    (h : s.checkSnapshot request nowMs = .ok snapshot) :
    s.snapshot = some snapshot ∧
      sameCurrency snapshot.availableBalance request.potentialRisk = true ∧
      snapshot.capturedAtMs ≤ nowMs ∧
      nowMs.toUInt64 - snapshot.capturedAtMs.toUInt64 ≤ s.config.maxSnapshotAgeMs.toUInt64 ∧
      canAdd s.activeRiskUnits request.potentialRisk.units = true ∧
      s.activeRiskUnits + request.potentialRisk.units ≤ snapshot.availableBalance.units := by
  unfold checkSnapshot at h
  split at h
  · cases h
  rename_i stored hs
  split at h
  · cases h
  split at h
  · cases h
  rename_i hc
  split at h
  · cases h
  rename_i hf
  split at h
  · cases h
  rename_i hroom
  split at h
  · cases h
  rename_i hb
  obtain rfl := Except.ok.inj h
  simp only [Bool.not_eq_true', Bool.not_eq_false, Bool.or_eq_true, not_or, decide_eq_true_eq,
    Int64.not_lt, UInt64.not_lt] at hc hf hroom hb
  exact ⟨hs, hc, hf.1, hf.2, hroom, hb⟩

theorem checkLimit_ok {risk : MoneyAmount} {next : Int64} {u : Unit}
    (h : s.checkLimit risk next = .ok u) {m : MoneyAmount}
    (hm : s.config.maxReservedRisk = some m) : next ≤ m.units := by
  unfold checkLimit at h
  rw [hm] at h
  dsimp only at h
  split at h
  · cases h
  split at h
  · cases h
  split at h
  · cases h
  · rename_i hlt
    exact Int64.not_lt.mp hlt

/-- The answers of a refused check are neither an admission nor an application. -/
theorem checkRequest_error {request : RiskRequest} {result : RiskAdmissionResult}
    (h : s.checkRequest request = .error result) :
    result.kind ≠ .admitted ∧ result.kind ≠ .applied := by
  unfold checkRequest at h
  repeat' split at h
  all_goals cases h
  all_goals exact ⟨by simp [RiskAdmissionResult.rejected, RiskAdmissionResult.conflict,
    RiskAdmissionResult.duplicate], by simp [RiskAdmissionResult.rejected,
    RiskAdmissionResult.conflict, RiskAdmissionResult.duplicate]⟩

theorem checkSnapshot_error {request : RiskRequest} {nowMs : Int64} {result : RiskAdmissionResult}
    (h : s.checkSnapshot request nowMs = .error result) :
    result.kind ≠ .admitted ∧ result.kind ≠ .applied := by
  unfold checkSnapshot at h
  repeat' split at h
  all_goals cases h
  all_goals exact ⟨by simp [RiskAdmissionResult.rejected, RiskAdmissionResult.unavailable],
    by simp [RiskAdmissionResult.rejected, RiskAdmissionResult.unavailable]⟩

theorem checkLimit_error {risk : MoneyAmount} {next : Int64} {result : RiskAdmissionResult}
    (h : s.checkLimit risk next = .error result) :
    result.kind ≠ .admitted ∧ result.kind ≠ .applied := by
  unfold checkLimit at h
  repeat' split at h
  all_goals cases h
  all_goals exact ⟨by simp [RiskAdmissionResult.rejected], by simp [RiskAdmissionResult.rejected]⟩

theorem reserve_cases (s : RiskAdmission) (request : RiskRequest) (nowMs : Int64) :
    Refused s (s.reserve request nowMs).1 (s.reserve request nowMs).2 ∨
      Effect s (.reserve request nowMs) (s.reserve request nowMs).1 (s.reserve request nowMs).2 := by
  unfold reserve
  cases hq : s.checkRequest request with
  | error result =>
      obtain ⟨h1, h2⟩ := checkRequest_error hq
      exact Or.inl ⟨rfl, h1, fun h => absurd h h2⟩
  | ok u =>
      dsimp only
      cases hs : s.checkSnapshot request nowMs with
      | error result =>
          obtain ⟨h1, h2⟩ := checkSnapshot_error hs
          exact Or.inl ⟨rfl, h1, fun h => absurd h h2⟩
      | ok snapshot =>
          dsimp only
          cases hl : s.checkLimit request.potentialRisk
              (s.activeRiskUnits + request.potentialRisk.units) with
          | error result =>
              obtain ⟨h1, h2⟩ := checkLimit_error hl
              exact Or.inl ⟨rfl, h1, fun h => absurd h h2⟩
          | ok u' =>
              dsimp only
              split
              · exact Or.inl ⟨rfl, by simp [RiskAdmissionResult.conflict], fun _ => rfl⟩
              · obtain ⟨hv, hi, hk, hint, hseq, hm, hc, hu⟩ := checkRequest_ok hq
                obtain ⟨hsn, hcur, hfut, hage, hroom, hbal⟩ := checkSnapshot_ok hs
                exact Or.inr (.reserve ⟨hv, hi, hk, hint, hseq, hm, hc, hu, hsn, hcur, hfut, hage,
                  hroom, hbal, fun m hm => checkLimit_ok hl hm⟩)

/-- A transition is refused or moves the stored reservation that its token names. -/
theorem transition_cases (s : RiskAdmission) (token : RiskReservation)
    (target : RiskReservationState) (reason : RiskAdmissionReason)
    (allowed : RiskReservationState → Bool) :
    Refused s (s.transition token target reason allowed).1
        (s.transition token target reason allowed).2 ∨
      ∃ stored, s.byKey.find? token.idempotencyKey = some stored ∧
        matchesToken stored token = true ∧ allowed stored.state = true ∧
        s.transition token target reason allowed =
          (s.moved stored target, .applied reason { stored with state := target }) := by
  unfold transition
  cases hf : s.byKey.find? token.idempotencyKey with
  | none => exact Or.inl ⟨rfl, by simp [RiskAdmissionResult.invalidState], fun _ => rfl⟩
  | some stored =>
      dsimp only
      by_cases hm : matchesToken stored token = true
      swap
      · rw [if_pos (by simpa using hm)]
        exact Or.inl ⟨rfl, by simp [RiskAdmissionResult.conflict], fun _ => rfl⟩
      rw [if_neg (by simpa using hm)]
      split
      · exact Or.inl ⟨rfl, by simp [RiskAdmissionResult.duplicate],
          fun h => by simp [RiskAdmissionResult.duplicate] at h⟩
      split
      · exact Or.inl ⟨rfl, by simp [RiskAdmissionResult.invalidState], fun _ => rfl⟩
      · rename_i ha
        have hk : token.idempotencyKey = stored.idempotencyKey := by rw [matchesToken_eq hm]
        refine Or.inr ⟨stored, rfl, hm, by simpa using ha, ?_⟩
        simp [moved, hk]

/-- Every call is refused or has its effect. -/
theorem step_cases (s : RiskAdmission) (c : Call) :
    Refused s (s.step c).1 (s.step c).2 ∨ Effect s c (s.step c).1 (s.step c).2 := by
  cases c with
  | updateSnapshot snapshot => exact updateSnapshot_cases s snapshot
  | reserve request nowMs => exact reserve_cases s request nowMs
  | commit token =>
      simp only [step, commit]
      rcases s.transition_cases token .submitted .committed (fun state => state == .reserved) with
        h | ⟨stored, hf, hm, ha, he⟩
      · exact Or.inl h
      · rw [he]
        refine Or.inr (.move rfl hf hm ?_ (fun _ _ h => by cases h))
        rw [eq_of_beq ha]
        exact .commit
  | release token =>
      simp only [step, release]
      rcases s.transition_cases token .released .released (fun state => state == .reserved) with
        h | ⟨stored, hf, hm, ha, he⟩
      · exact Or.inl h
      · rw [he]
        refine Or.inr (.move rfl hf hm ?_ (fun _ _ h => by cases h))
        rw [eq_of_beq ha]
        exact .release
  | markUnknown token =>
      simp only [step, markUnknown]
      rcases s.transition_cases token .executionUnknown .executionUnknown
          (fun state => state == .reserved || state == .submitted) with h | ⟨stored, hf, hm, ha, he⟩
      · exact Or.inl h
      · rw [he]
        refine Or.inr (.move rfl hf hm ?_ (fun _ _ h => by cases h))
        rcases Bool.or_eq_true_iff.mp ha with ha | ha <;> rw [eq_of_beq ha]
        · exact .unknown
        · exact .lost
  | settle token evidence =>
      simp only [step, settle]
      split
      · exact Or.inl ⟨rfl, by simp [RiskAdmissionResult.rejected], fun _ => rfl⟩
      · rename_i hv
        simp only [Bool.not_eq_true', Bool.not_eq_false] at hv
        rcases s.transition_cases token .settled .settled
            (fun state => state == .submitted || state == .executionUnknown) with
          h | ⟨stored, hf, hm, ha, he⟩
        · exact Or.inl h
        · rw [he]
          refine Or.inr (.move rfl hf hm ?_ (fun t e h => ?_))
          · rcases Bool.or_eq_true_iff.mp ha with ha | ha <;> rw [eq_of_beq ha]
            · exact .settle
            · exact .reconcile
          · obtain ⟨rfl, rfl⟩ := Call.settle.inj h
            rw [← validFor_of_matches hm]
            exact hv

end RiskAdmission

end OptionX.TradingSystem
