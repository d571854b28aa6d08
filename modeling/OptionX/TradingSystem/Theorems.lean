import OptionX.TradingSystem.Lemmas.Agreement
import OptionX.TradingSystem.Lemmas.Confluence
import OptionX.TradingSystem.Lemmas.RiskLifecycle

/-!
# The trading-system owners

What holds over every run of the risk owner, of a series and of an execution group, and that the risk owner
and the series agree on when an operation is settled.
-/

namespace OptionX.TradingSystem

open Lib (OrderedMap)

open Lib.Run (exec trace)

/-! ## The risk owner -/

namespace RiskAdmission

theorem exec_funded {config : RiskAdmissionConfig} (hc : config.valid = true) (first : UInt64)
    (calls : List Call) : Funded (exec step (create config first) calls) :=
  Lib.Run.exec_induct (fun _ c h => h.step c) (.create hc first) calls

theorem step_config (s : RiskAdmission) (c : Call) : (s.step c).1.config = s.config := by
  rcases s.step_cases c with hr | he
  · rw [hr.unchanged]
  · generalize (s.step c).1 = s' at he
    generalize (s.step c).2 = result at he
    cases he <;> rfl

theorem exec_config (config : RiskAdmissionConfig) (first : UInt64) (calls : List Call) :
    (exec step (create config first) calls).config = config :=
  Lib.Run.exec_induct (I := fun s => s.config = config)
    (fun s c h => (step_config s c).trans h) rfl calls

/-- The owner never over-commits: its sum is exact, in one currency, within the limit, and at each
admission within the balance of a snapshot that is fresh enough. -/
theorem never_overcommits (config : RiskAdmissionConfig) (hconfig : config.valid = true)
    (first : UInt64) (calls : List Call) :
    let s := exec step (create config first) calls
    (s.reservedRiskUnits.toInt = s.exactRisk ∧ AddsUp 0 s.byKey.values) ∧
      (∀ k r, s.byKey.find? k = some r → ∃ snapshot, s.snapshot = some snapshot ∧
        sameCurrency snapshot.availableBalance r.potentialRisk = true ∧
        sameCurrency r.stake r.potentialRisk = true) ∧
      (∀ m, config.maxReservedRisk = some m → s.exactRisk ≤ m.units.toInt) ∧
      ∀ request nowMs, (s.reserve request nowMs).2.kind = .admitted →
        ∃ snapshot, s.snapshot = some snapshot ∧
          (s.reserve request nowMs).1.exactRisk =
            s.exactRisk + request.potentialRisk.units.toInt ∧
          (s.reserve request nowMs).1.exactRisk ≤ snapshot.availableBalance.units.toInt ∧
          snapshot.capturedAtMs.toInt ≤ nowMs.toInt ∧
          nowMs.toInt - snapshot.capturedAtMs.toInt ≤ config.maxSnapshotAgeMs.toInt := by
  intro s
  have hf : Funded s := exec_funded hconfig first calls
  have hcfg : s.config = config := exec_config config first calls
  refine ⟨hf.units, fun k r hk => hf.currency hk, fun m hm => hf.limit m (hcfg ▸ hm), ?_⟩
  intro request nowMs hkind
  rcases s.reserve_cases request nowMs with hr | he
  · exact absurd hkind hr.notAdmitted
  · generalize (s.reserve request nowMs).1 = s' at he ⊢
    generalize (s.reserve request nowMs).2 = result at he hkind
    cases he with
    | reserve h =>
        rename_i snapshot
        obtain ⟨hbal, hfut, hage⟩ := hf.admitted h
        exact ⟨snapshot, h.stored, h.exactRisk, hbal, hfut, hcfg ▸ hage⟩
    | move call_move => cases call_move

/-- A funded owner: an account scope with a limit of 100 units. -/
def limitedConfig : RiskAdmissionConfig :=
  { scope := ⟨.account, 7⟩, maxReservedRisk := some ⟨100, 2, .usd⟩ }

def fundedCalls : List Call :=
  [.updateSnapshot ⟨.supported, ⟨90, 2, .usd⟩, 1000, 1⟩,
    .reserve { intentId := 5, executionGroup := ⟨0, 1⟩, idempotencyKey := "a",
               stake := ⟨60, 2, .usd⟩, potentialRisk := ⟨60, 2, .usd⟩ } 1500]

theorem never_overcommits_limited :
    (exec step (create limitedConfig 1) fundedCalls).reservedRiskUnits.toInt = 60 ∧
      (exec step (create limitedConfig 1) fundedCalls).reservedRiskUnits.toInt =
        (exec step (create limitedConfig 1) fundedCalls).exactRisk :=
  ⟨by decide, (never_overcommits limitedConfig (by decide) 1 fundedCalls).1.1⟩

theorem bindings (config : RiskAdmissionConfig) (first : UInt64) (calls : List Call) :
    Bindings (trace step (create config first) calls) (exec step (create config first) calls) :=
  Lib.Run.history_induct' (fun _ _ c h => h.step c) (.create config first) calls

/-- `Once` for every run, from the two facts about the sort of call. -/
theorem once {sort : Call → Bool} {Q : RiskReservationState → Prop}
    (hclosed : ∀ a b : RiskReservationState, a.Moves b → Q a → Q b)
    (henter : ∀ c token target, sort c = true → Call.move c = some (token, target) →
      ∀ st : RiskReservationState, st.Moves target → ¬ Q st ∧ Q target)
    (config : RiskAdmissionConfig) (first : UInt64) (calls : List Call) :
    Once sort Q (trace step (create config first) calls) (exec step (create config first) calls) := by
  suffices h : Bindings (trace step (create config first) calls) (exec step (create config first) calls) ∧
      Once sort Q (trace step (create config first) calls) (exec step (create config first) calls) from h.2
  exact Lib.Run.history_induct' (H := fun ts s => Bindings ts s ∧ Once sort Q ts s)
    (fun ts s c h => ⟨h.1.step c, h.2.step hclosed henter h.1 c⟩)
    ⟨.create config first, ⟨by simp, by simp⟩⟩ calls

theorem tracked (config : RiskAdmissionConfig) (first : UInt64) (calls : List Call) :
    Tracked (trace step (create config first) calls) (exec step (create config first) calls) :=
  Lib.Run.history_induct' (fun _ _ c h => h.step c) (fun u hu => by simp at hu) calls

theorem once_committed (config : RiskAdmissionConfig) (first : UInt64) (calls : List Call) :
    Once Call.isCommit (· ≠ .reserved) (trace step (create config first) calls)
      (exec step (create config first) calls) := by
  refine once ?_ ?_ config first calls
  · intro a b hm ha
    cases hm <;> simp at ha ⊢
  · intro c token target hs hc st hm
    cases c <;> simp only [Call.isCommit, Bool.false_eq_true] at hs
    obtain ⟨rfl, rfl⟩ := Prod.mk.inj (Option.some.inj hc)
    cases hm
    simp

theorem once_released (config : RiskAdmissionConfig) (first : UInt64) (calls : List Call) :
    Once Call.isRelease (· = .released) (trace step (create config first) calls)
      (exec step (create config first) calls) := by
  refine once ?_ ?_ config first calls
  · intro a b hm ha
    cases hm <;> simp at ha
  · intro c token target hs hc st hm
    cases c <;> simp only [Call.isRelease, Bool.false_eq_true] at hs
    obtain ⟨rfl, rfl⟩ := Prod.mk.inj (Option.some.inj hc)
    cases hm
    simp

theorem once_settled (config : RiskAdmissionConfig) (first : UInt64) (calls : List Call) :
    Once Call.isSettle (· = .settled) (trace step (create config first) calls)
      (exec step (create config first) calls) := by
  refine once ?_ ?_ config first calls
  · intro a b hm ha
    cases hm <;> simp at ha
  · intro c token target hs hc st hm
    cases c <;> simp only [Call.isSettle, Bool.false_eq_true] at hs
    obtain ⟨rfl, rfl⟩ := Prod.mk.inj (Option.some.inj hc)
    cases hm <;> simp

/-- The lifecycle is safe over every run: keys, intents and ids are bound once and for ever, a reservation
moves forwards only, is committed, released and settled at most once, and once exposed it gives its risk
back only to evidence that is valid for the stored record. -/
theorem lifecycle_safe (config : RiskAdmissionConfig) (first : UInt64) (calls : List Call) :
    let s := exec step (create config first) calls
    let ts := trace step (create config first) calls
    let admitted := ts.filterMap admission
    ((admitted.map (·.idempotencyKey)).Nodup ∧ (admitted.map (·.intentId)).Nodup ∧
      (admitted.map (·.reservationId)).Nodup ∧ ∀ a ∈ admitted, a.reservationId ≠ 0) ∧
    ((∀ a ∈ admitted, ∃ state, s.byKey.find? a.idempotencyKey = some { a with state }) ∧
      (∀ k r, s.byKey.find? k = some r →
        r.idempotencyKey = k ∧ ∃ a ∈ admitted, r = { a with state := r.state }) ∧
      ∀ i k, s.byIntent.find? i = some k ↔
        ∃ a ∈ admitted, a.intentId = i ∧ a.idempotencyKey = k) ∧
    (∀ call k r, s.byKey.find? k = some r →
      ∃ state, (s.step call).1.byKey.find? k = some { r with state } ∧
        (state = r.state ∨ r.state.Moves state) ∧
        (r.state = .released ∨ r.state = .settled → state = r.state)) ∧
    ((ts.filterMap (appliedBy Call.isCommit)).Nodup ∧
      (ts.filterMap (appliedBy Call.isRelease)).Nodup ∧
      (ts.filterMap (appliedBy Call.isSettle)).Nodup) ∧
    ∀ call k r r', s.byKey.find? k = some r → r.state.active = true →
      (∃ u ∈ ts, ∃ ru, u.after.byKey.find? k = some ru ∧
        (ru.state = .submitted ∨ ru.state = .executionUnknown)) →
      (s.step call).1.byKey.find? k = some r' → r'.state.active = false →
      ∃ token evidence, call = .settle token evidence ∧ evidence.validFor r = true := by
  intro s ts admitted
  have hb : Bindings ts s := bindings config first calls
  refine ⟨⟨hb.keys, hb.intents, hb.ids, hb.nonzero⟩, ⟨hb.kept, fun k r hk => hb.stored hk, hb.byIntent⟩,
    fun call k r hk => ?_, ⟨(once_committed config first calls).nodup,
      (once_released config first calls).nodup, (once_settled config first calls).nodup⟩, ?_⟩
  · obtain ⟨state, hst, hm⟩ := step_moves s call hk
    refine ⟨state, hst, hm, fun hend => ?_⟩
    rcases hm with hm | hm
    · exact hm
    · rcases hend with hend | hend <;> rw [hend] at hm <;> cases hm
  · rintro call k r r' hk hact ⟨u, hu, ru, hru, hx⟩ hk' hd
    obtain ⟨r₁, hr₁, hst⟩ := tracked config first calls u hu k ru hru hx
    rw [hk, Option.some.injEq] at hr₁
    subst hr₁
    rcases hst with hst | hst
    · exact settle_of_dropped hk hst hk' hd
    · rw [hst] at hact
      cases hact

end RiskAdmission

/-! ## The series -/

namespace SeriesProgression

/-- A series progresses exactly once for each operation that executed money, raises its revision with each
applied call, has at most one outstanding operation and consumes every identity at most once. -/
theorem progresses_exactly_once (series : TradeSeries) (calls : List Call) :
    let p := exec step (create series) calls
    let ts := trace step (create series) calls
    let begun := ts.filterMap begunIntent
    ((∀ t ∈ ts, t.after.state.series.nextStep.toNat =
        t.before.state.series.nextStep.toNat + if executes t then 1 else 0) ∧
      begun.map (·.intentId) = (ts.filterMap closing).map (·.intentId) ++
        (if outstanding p.state.status then [p.state.currentIntentId] else []) ∧
      (series.nextStep ≤ maxSeriesStep → p.state.series.nextStep ≤ maxSeriesStep)) ∧
    (∀ t ∈ ts,
      (t.answer = .applied → t.after.state.series.stateRevision.toNat =
        t.before.state.series.stateRevision.toNat + 1) ∧
      (t.answer ≠ .applied → t.after = t.before)) ∧
    ((p.state.currentIntentId ≠ 0 ↔ outstanding p.state.status = true) ∧
      (outstanding p.state.status = false → p.state.currentGroupId = 0) ∧
      (outstanding p.state.status = true → ∃ intent, begun.getLast? = some intent ∧
        p.state.currentIntentId = intent.intentId ∧
        p.state.currentGroupId = intent.executionGroup.groupId) ∧
      (outstanding p.state.status = true → ∀ call,
        (∀ event rev, call ≠ .apply event rev) → (p.step call).2 ≠ .applied)) ∧
    (((ts.filterMap appliedSettlement).map (·.settlementId)).Nodup ∧
      (begun.map (·.intentId)).Nodup ∧ (begun.map (·.idempotencyKey)).Nodup ∧
      ∀ e ∈ ts.filterMap appliedSettlement, ∀ rev, p.apply e rev = (p, .duplicate)) := by
  intro p ts begun
  have h : Books series ts p := books series calls
  have hcount : ∀ t ∈ ts, t.after.state.series.nextStep.toNat =
        t.before.state.series.nextStep.toNat + (if executes t then 1 else 0) ∧
      (t.answer = .applied → t.after.state.series.stateRevision.toNat =
        t.before.state.series.stateRevision.toNat + 1) ∧
      (t.answer ≠ .applied → t.after = t.before) :=
    Lib.Run.forall_trace (I := Inv) (fun _ c h => h.step c) (fun _ c h => h.counters c)
      (.create series) calls
  have hout := h.inv.outstanding
  refine ⟨⟨fun t ht => (hcount t ht).1, by rw [hout]; exact h.operations, h.limit⟩,
    fun t ht => (hcount t ht).2, ⟨?_, ?_, ?_, fun hs call hc => not_applied_of_outstanding hs hc⟩,
    h.settlements, h.intents, h.keys, fun e he rev => apply_duplicate (h.receipts e he) rev⟩
  · rw [hout]
    cases hg : p.hasGroup with
    | true => simpa using (h.inv.busy hg).1
    | false => simpa using (h.inv.idle hg).1
  · rw [hout]
    exact fun hg => (h.inv.idle hg).2
  · rw [hout]
    exact h.current

end SeriesProgression

/-! ## The execution group -/

/-- Aggregation is confluent and exact: every list that delivers exactly the events of a settling set, in
any order and with any repetitions, ends in the outcome that the set stands for. -/
theorem ExecutionGroupAggregator.confluent (op : Operation) (hop : op.aggregator.valid = true)
    (es : Finset TradeSettlement) (hes : op.SettledBy es) (deliveries : List TradeSettlement)
    (hd : ∀ e, e ∈ deliveries ↔ e ∈ es) :
    (op.aggregator.deliver deliveries).outcome = op.settledOutcome es ∧
      (op.settledOutcome es).completedMembers = op.group.expectedMembers ∧
      (∀ m, (op.settledOutcome es).netProfit = some m →
        m.units.toInt = ∑ e ∈ es, e.money ∧ m.currency = op.currency ∧ m.precision = op.precision) := by
  refine ⟨?_, ?_, ?_⟩
  · rw [((Inv.create hop).deliver deliveries).outcome_of_perm (hes.terminals_perm hop hd)
      (hes.length_terminals hop), hes.exactOutcome_eq hop]
  · unfold Operation.settledOutcome
    dsimp only
    split <;> [split; skip] <;> rfl
  · intro m hm
    unfold Operation.settledOutcome at hm
    dsimp only at hm
    split at hm
    · split at hm
      · rename_i hr
        obtain rfl := Option.some.inj hm
        exact ⟨Int64.toInt_ofInt_of_le hr.1 (by omega), rfl, rfl⟩
      · cases hm
    · cases hm

/-- A group of two members in dollars. -/
def pairOperation : Operation := ⟨5, ⟨9, 2⟩, [1, 2], .usd, 2⟩

def pairWin : TradeSettlement := ⟨11, 5, 9, 1, .win, .executed, some ⟨30, 2, .usd⟩⟩
def pairPending : TradeSettlement := ⟨12, 5, 9, 2, .unknown, .mayHaveExecuted, none⟩
def pairLoss : TradeSettlement := ⟨13, 5, 9, 2, .loss, .executed, some ⟨-50, 2, .usd⟩⟩

theorem pair_settledBy : pairOperation.SettledBy {pairWin, pairPending, pairLoss} where
  admits := by
    intro e he
    simp only [Finset.mem_insert, Finset.mem_singleton] at he
    rcases he with rfl | rfl | rfl
    · exact ⟨by decide, rfl, rfl, by decide, by simp [pairWin, pairOperation]⟩
    · exact ⟨by decide, rfl, rfl, by decide, by simp [pairPending]⟩
    · exact ⟨by decide, rfl, rfl, by decide, by simp [pairLoss, pairOperation]⟩
  distinct := by decide
  terminal := by
    intro k hk
    simp only [pairOperation, List.mem_cons, List.not_mem_nil, or_false] at hk
    rcases hk with rfl | rfl
    · have hu : ∀ e ∈ ({pairWin, pairPending, pairLoss} : Finset TradeSettlement),
          e.tradeId = 1 ∧ e.terminal = true → e = pairWin := by decide
      exact ⟨pairWin, by decide, fun e he => hu e he.1 he.2⟩
    · have hu : ∀ e ∈ ({pairWin, pairPending, pairLoss} : Finset TradeSettlement),
          e.tradeId = 2 ∧ e.terminal = true → e = pairLoss := by decide
      exact ⟨pairLoss, by decide, fun e he => hu e he.1 he.2⟩

theorem ExecutionGroupAggregator.confluent_pair :
    (pairOperation.aggregator.deliver
      [pairPending, pairLoss, pairPending, pairWin, pairLoss]).outcome =
        { final := true, allMembersTerminal := true, completedMembers := 2
          aggregationStatus := .ready, kind := some .loss, netProfit := some ⟨-20, 2, .usd⟩ } :=
  (confluent pairOperation (by decide) {pairWin, pairPending, pairLoss} pair_settledBy
    [pairPending, pairLoss, pairPending, pairWin, pairLoss] (by intro e; simp; tauto)).1.trans
    (by decide)

/-! ## The two owners -/

/-- The evidence that the settlements of an operation make up for a reservation. -/
def evidenceFor (r : RiskReservation) (outcome : GroupOutcome) (settlements : List TradeSettlement) :
    RiskSettlementEvidence :=
  ⟨r.reservationId, r.intentId, r.executionGroup, outcome, settlements⟩

namespace RiskAdmission

variable {s : RiskAdmission} {token r : RiskReservation} {evidence : RiskSettlementEvidence}

/-- Evidence that is not valid for the stored record is refused and changes nothing. -/
theorem settle_of_invalid (hm : matchesToken r token = true) (h : evidence.validFor r = false) :
    s.settle token evidence = (s, .rejected .invalidSettlementEvidence) := by
  simp [settle, validFor_of_matches hm, h]

/-- Valid evidence gets past the check and settles an exposed reservation. -/
theorem settle_of_valid (hr : s.byKey.find? r.idempotencyKey = some r)
    (hm : matchesToken r token = true) (h : evidence.validFor r = true) :
    (s.settle token evidence).2 ≠ .rejected .invalidSettlementEvidence ∧
      (r.state.Exposed → s.settle token evidence =
        (s.moved r .settled, .applied .settled { r with state := .settled })) := by
  have hk : token.idempotencyKey = r.idempotencyKey := by rw [matchesToken_eq hm]
  simp only [settle, validFor_of_matches hm, h, transition, hk, hr, hm, Bool.not_true,
    Bool.false_eq_true, if_false]
  constructor
  · split
    · simp [RiskAdmissionResult.duplicate, RiskAdmissionResult.rejected]
    · split
      · simp [RiskAdmissionResult.invalidState, RiskAdmissionResult.rejected]
      · simp [RiskAdmissionResult.applied, RiskAdmissionResult.rejected]
  · rintro (hx | hx) <;> simp [hx, moved]

theorem beginGroup_eq_normalizedGroup (intent : TradeIntent) (stake risk : MoneyAmount) :
    normalizedGroup (.fromIntent intent stake risk) = SeriesProgression.beginGroup intent := rfl

/-- The risk owner and the series agree: for a stored reservation and an operation that was begun for the
same intent in the reservation's group, currency and precision, evidence with one settlement for each
member, in any order, is accepted exactly when the series has become final on them. -/
theorem settle_agrees_with_progression (s : RiskAdmission) (r token : RiskReservation)
    (hr : s.byKey.find? r.idempotencyKey = some r) (htoken : matchesToken r token = true)
    (p : SeriesProgression) (intent : TradeIntent) (stake risk : MoneyAmount)
    (tradeIds : List UInt64) (rev : UInt64)
    (hintent : r.intentId = intent.intentId)
    (hgroup : r.executionGroup = normalizedGroup (.fromIntent intent stake risk))
    (hbegin : (p.begin intent tradeIds r.potentialRisk.currency r.potentialRisk.precision rev).2 =
      .applied)
    (events : List (TradeSettlement × UInt64))
    (hmembers : (events.map (·.1.tradeId)).Perm tradeIds)
    (settlements : List TradeSettlement) (horder : settlements.Perm (events.map Prod.fst)) :
    let begun := (p.begin intent tradeIds r.potentialRisk.currency r.potentialRisk.precision rev).1
    let reached := (begun.applyAll events).state.outcome
    let settled := reached.final = true ∧ reached.aggregationStatus = .ready
    ((s.settle token (evidenceFor r reached settlements)).2 ≠ .rejected .invalidSettlementEvidence ↔
        settled) ∧
      (r.state.Exposed → (s.settle token (evidenceFor r reached settlements) =
        (s.moved r .settled, .applied .settled { r with state := .settled }) ↔ settled)) ∧
      (¬ settled → s.settle token (evidenceFor r reached settlements) =
        (s, .rejected .invalidSettlementEvidence)) ∧
      (begun.AllApplied events → ∀ outcome ≠ reached,
        s.settle token (evidenceFor r outcome settlements) =
          (s, .rejected .invalidSettlementEvidence)) ∧
      ∀ outcome partialList,
        (partialList.length ≠ r.executionGroup.expectedMembers.toNat ∨
          ∃ e ∈ partialList, e.terminal = false) →
        s.settle token (evidenceFor r outcome partialList) =
          (s, .rejected .invalidSettlementEvidence) := by
  intro begun reached settled
  have hstep := SeriesProgression.step_cases p
    (.begin intent tradeIds r.potentialRisk.currency r.potentialRisk.precision rev)
  obtain ⟨hvalid, hbegun⟩ : (SeriesProgression.beginAggregator intent tradeIds
      r.potentialRisk.currency r.potentialRisk.precision).valid = true ∧
      begun = p.begun intent tradeIds r.potentialRisk.currency r.potentialRisk.precision := by
    rcases hstep with ⟨_, ha⟩ | ⟨hn, _⟩
    · simp only [SeriesProgression.step] at ha
      generalize hs : (p.begin intent tradeIds r.potentialRisk.currency
        r.potentialRisk.precision rev).1 = p' at ha
      cases ha with
      | begin ready idle room valid newIntent newKey group => exact ⟨group, hs⟩
    · exact absurd hbegin hn
  have hop : SeriesProgression.beginOperation intent tradeIds r.potentialRisk.currency
      r.potentialRisk.precision = RiskSettlementEvidence.operation r tradeIds := by
    rw [beginGroup_eq_normalizedGroup] at hgroup
    simp [SeriesProgression.beginOperation, RiskSettlementEvidence.operation, hintent, hgroup]
  have hfollows : SeriesProgression.Follows (RiskSettlementEvidence.operation r tradeIds) [] begun := by
    rw [hbegun, ← hop]
    exact .begun hvalid
  have hvalid' : (RiskSettlementEvidence.operation r tradeIds).aggregator.valid = true := by
    rw [← hop]
    exact hvalid
  have hall := hfollows.applyAll events
  rw [List.nil_append] at hall
  have hmem : ((events.map Prod.fst).map (·.tradeId)).Perm tradeIds := by
    rw [List.map_map]
    exact hmembers
  have hvalidFor : (evidenceFor r reached settlements).validFor r = true ↔ settled := by
    constructor
    · intro h
      have hc := (RiskSettlementEvidence.validFor_iff.mp h).1
      exact ⟨hc.final, hc.ready⟩
    · intro h
      exact RiskSettlementEvidence.validFor_of_final hall hvalid' hmem h.1 horder
  have hrefused : ¬ settled → s.settle token (evidenceFor r reached settlements) =
      (s, .rejected .invalidSettlementEvidence) := fun h =>
    settle_of_invalid htoken (Bool.eq_false_iff.mpr (fun hv => h (hvalidFor.mp hv)))
  refine ⟨⟨fun h => ?_, fun h => ?_⟩, fun hx => ⟨fun h => ?_, fun h => ?_⟩, hrefused,
    fun happlied outcome hne => ?_, fun outcome partialList hp => ?_⟩
  · by_contra hn
    exact h (by rw [hrefused hn])
  · exact (settle_of_valid hr htoken (hvalidFor.mpr h)).1
  · by_contra hn
    rw [hrefused hn] at h
    have := (Prod.mk.inj h).2
    simp [RiskAdmissionResult.rejected, RiskAdmissionResult.applied] at this
  · exact (settle_of_valid hr htoken (hvalidFor.mpr h)).2 hx
  · refine settle_of_invalid htoken (Bool.eq_false_iff.mpr (fun hv => hne ?_))
    have hrec := hfollows.all_receipts happlied (by simp)
    rw [List.nil_append] at hrec
    exact RiskSettlementEvidence.outcome_of_validFor hall hmem hrec horder hv
  · refine settle_of_invalid htoken (Bool.eq_false_iff.mpr (fun hv => ?_))
    obtain ⟨hc, ht, _⟩ := RiskSettlementEvidence.validFor_outcome [] hv
    rcases hp with hp | ⟨e, he, hterm⟩
    · exact hp hc.length
    · have := ht e he
      rw [hterm] at this
      cases this

/-- An intent with one optional slot, its reservation and the event that settles it. -/
def slotIntent : TradeIntent :=
  { intentId := 5, originSignalId := 3, seriesId := 8, seriesStep := 0, idempotencyKey := "a" }

def slotCalls : List Call :=
  [.updateSnapshot ⟨.supported, ⟨90, 2, .usd⟩, 1000, 1⟩,
    .reserve (.fromIntent slotIntent ⟨60, 2, .usd⟩ ⟨60, 2, .usd⟩) 1500,
    .commit { slotReservation with state := .reserved }]
where
  slotReservation : RiskReservation :=
    { reservationId := 1, scope := ⟨.account, 7⟩, intentId := 5, executionGroup := ⟨0, 1⟩
      idempotencyKey := "a", stake := ⟨60, 2, .usd⟩, potentialRisk := ⟨60, 2, .usd⟩
      state := .submitted, accountRevision := 1 }

def slotWin : TradeSettlement := ⟨11, 5, 0, 4, .win, .executed, some ⟨30, 2, .usd⟩⟩

theorem settle_agrees_with_progression_slot :
    ((exec step (create limitedConfig 1) slotCalls).settle slotCalls.slotReservation
      (evidenceFor slotCalls.slotReservation
        { final := true, allMembersTerminal := true, completedMembers := 1
          aggregationStatus := .ready, kind := some .win, netProfit := some ⟨30, 2, .usd⟩ }
        [slotWin])).2 ≠ .rejected .invalidSettlementEvidence :=
  (settle_agrees_with_progression (exec step (create limitedConfig 1) slotCalls)
    slotCalls.slotReservation slotCalls.slotReservation (by decide) (by decide)
    (SeriesProgression.create ⟨8, 3, 0, 0⟩) slotIntent ⟨60, 2, .usd⟩ ⟨60, 2, .usd⟩ [4] 0 (by decide)
    (by decide) (by decide) [(slotWin, 1)] (by decide) [slotWin] (by decide)).1.mpr (by decide)

end RiskAdmission

end OptionX.TradingSystem
