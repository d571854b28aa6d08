import OptionX.Lib.Run
import OptionX.TradingSystem.Progression
import OptionX.TradingSystem.Lemmas.Group

/-!
# Runs of a series

What an applied call does, the invariant of every reachable series and the books that a run keeps: which
intents were begun, which settlements were applied and which of them ended an operation.
-/

namespace OptionX.TradingSystem

open Lib (OrderedMap)

/-- A final outcome is ready and complete. -/
theorem ExecutionGroupAggregator.aggregate_final {a : ExecutionGroupAggregator}
    (h : a.aggregate.final = true) :
    a.aggregate.aggregationStatus = .ready ∧ a.aggregate.allMembersTerminal = true := by
  unfold aggregate conclude at h ⊢
  dsimp only at h ⊢
  by_cases hc : (a.tally.completedMembers == a.group.expectedMembers) = true
  · cases hx : a.tally.hasExecution
    · simp [hc]
    · simp only [hx, if_true] at h ⊢
      cases hu : a.tally.accumulator.toUnits with
      | none => simp [hu] at h
      | some u => simp [hc]
  · rw [Bool.not_eq_true] at hc
    cases hx : a.tally.hasExecution
    · simp [hx, hc] at h
    · cases hu : a.tally.accumulator.toUnits <;> simp [hx, hu, hc] at h

namespace SeriesProgression

variable {p : SeriesProgression} {c : Call}

/-! ## One call -/

/-- The conditions that every applied call meets. -/
structure Ready (p : SeriesProgression) : Prop where
  revision : p.state.series.stateRevision ≠ 18446744073709551615
  limit : p.state.series.nextStep ≤ maxSeriesStep

theorem checkRevision_applied {r : UInt64} (h : p.checkRevision r = .applied) : p.Ready := by
  unfold checkRevision at h
  split at h
  · cases h
  · split at h
    · cases h
    · rename_i hr
      split at h
      · cases h
      · rename_i hm
        split at h
        · cases h
        · rename_i hl
          simp only [bne_iff_ne, ne_eq, not_not, beq_iff_eq] at hr hm
          exact ⟨hr ▸ hm, UInt32.not_lt.mp hl⟩

/-- What an applied call has checked and what it does. -/
inductive Applied (p : SeriesProgression) : Call → SeriesProgression → Prop
  | begin {intent tradeIds currency precision rev} (ready : p.Ready) (idle : p.state.status = .active)
      (room : p.state.series.nextStep ≠ maxSeriesStep) (valid : intent.valid = true)
      (newIntent : p.usedIntents.find? intent.intentId = none)
      (newKey : p.usedIntentKeys.find? intent.idempotencyKey = none)
      (group : (beginAggregator intent tradeIds currency precision).valid = true) :
      Applied p (.begin intent tradeIds currency precision rev)
        (p.begun intent tradeIds currency precision)
  | apply {event rev} (ready : p.Ready) (new : p.receipts.find? event.settlementId = none)
      (busy : p.hasGroup = true) (waiting : outstanding p.state.status = true)
      (member : p.group.check event = .applied) :
      Applied p (.apply event rev) (p.advanced event)
  | complete {rev} (ready : p.Ready) (idle : p.state.status = .active) :
      Applied p (.complete rev) p.completed

theorem checkBegin_applied {intent tradeIds currency precision rev}
    (h : p.checkBegin intent tradeIds currency precision rev = .applied) :
    p.Applied (.begin intent tradeIds currency precision rev)
      (p.begun intent tradeIds currency precision) := by
  unfold checkBegin at h
  dsimp only at h
  split at h
  · rename_i hc
    simp [h] at hc
  rename_i hrev
  split at h
  · cases h
  rename_i hidle
  split at h
  · cases h
  rename_i hroom
  split at h
  · cases h
  rename_i hid
  split at h
  · cases h
  split at h
  · cases h
  split at h
  · cases h
  rename_i hi
  split at h
  · cases h
  rename_i hk
  split at h
  · cases h
  rename_i hg
  simp only [bne_iff_ne, ne_eq, not_not, beq_iff_eq, Bool.not_eq_true', Bool.not_eq_false,
    Bool.or_eq_true, not_or, Bool.not_eq_true, OrderedMap.contains_eq_false] at hrev hidle hroom hid hi hk hg
  exact .begin (checkRevision_applied hrev) hidle hroom hid.1.1.1.1 hi hk hg

theorem checkApply_applied {event rev} (h : p.checkApply event rev = .applied) :
    p.Applied (.apply event rev) (p.advanced event) := by
  unfold checkApply at h
  split at h
  · split at h <;> cases h
  rename_i hn
  dsimp only at h
  split at h
  · rename_i hc
    simp [h] at hc
  rename_i hrev
  split at h
  · cases h
  rename_i hs
  simp only [bne_iff_ne, ne_eq, not_not, Bool.or_eq_true, Bool.not_eq_true', not_or,
    Bool.not_eq_false] at hrev hs
  exact .apply (checkRevision_applied hrev) hn hs.1 hs.2 h

theorem checkComplete_applied {rev} (h : p.checkComplete rev = .applied) :
    p.Applied (.complete rev) p.completed := by
  unfold checkComplete at h
  dsimp only at h
  split at h
  · rename_i hc
    simp [h] at hc
  rename_i hrev
  split at h
  · cases h
  rename_i hs
  simp only [bne_iff_ne, ne_eq, not_not] at hrev hs
  exact .complete (checkRevision_applied hrev) hs

/-- A call is applied, with its checks and its effect, or it changes nothing. -/
theorem step_cases (p : SeriesProgression) (c : Call) :
    ((p.step c).2 = .applied ∧ p.Applied c (p.step c).1) ∨
      ((p.step c).2 ≠ .applied ∧ (p.step c).1 = p) := by
  cases c with
  | begin intent tradeIds currency precision rev =>
      have hc (h : p.checkBegin intent tradeIds currency precision rev = .applied) :=
        checkBegin_applied h
      simp only [step, SeriesProgression.begin]
      cases h : p.checkBegin intent tradeIds currency precision rev <;>
        first
        | exact Or.inl ⟨rfl, hc h⟩
        | exact Or.inr ⟨by simp, rfl⟩
  | apply event rev =>
      have hc (h : p.checkApply event rev = .applied) := checkApply_applied h
      simp only [step, SeriesProgression.apply]
      cases h : p.checkApply event rev <;>
        first
        | exact Or.inl ⟨rfl, hc h⟩
        | exact Or.inr ⟨by simp, rfl⟩
  | complete rev =>
      have hc (h : p.checkComplete rev = .applied) := checkComplete_applied h
      simp only [step, SeriesProgression.complete]
      cases h : p.checkComplete rev <;>
        first
        | exact Or.inl ⟨rfl, hc h⟩
        | exact Or.inr ⟨by simp, rfl⟩

/-! ## The effect of an event -/

section Conclude

variable (p : SeriesProgression) (o : GroupOutcome)

@[simp] theorem conclude_receipts : (p.conclude o).receipts = p.receipts := by
  unfold conclude; dsimp only; split <;> [rfl; split <;> rfl]

@[simp] theorem conclude_usedIntents : (p.conclude o).usedIntents = p.usedIntents := by
  unfold conclude; dsimp only; split <;> [rfl; split <;> rfl]

@[simp] theorem conclude_usedIntentKeys : (p.conclude o).usedIntentKeys = p.usedIntentKeys := by
  unfold conclude; dsimp only; split <;> [rfl; split <;> rfl]

@[simp] theorem conclude_group : (p.conclude o).group = p.group := by
  unfold conclude; dsimp only; split <;> [rfl; split <;> rfl]

@[simp] theorem conclude_stateRevision :
    (p.conclude o).state.series.stateRevision = p.state.series.stateRevision := by
  unfold conclude; dsimp only; split <;> [rfl; split <;> rfl]

@[simp] theorem conclude_outcome : (p.conclude o).state.outcome = o := by
  unfold conclude; dsimp only; split <;> [rfl; split <;> rfl]

variable {p o}

/-- A final group ends the operation and advances the series when money was executed. -/
theorem conclude_final (h : o.final = true) (ho : o.aggregationStatus ≠ .numericOverflow) :
    (p.conclude o).state.status = .active ∧ (p.conclude o).state.currentIntentId = 0 ∧
      (p.conclude o).state.currentGroupId = 0 ∧ (p.conclude o).hasGroup = false ∧
      (p.conclude o).state.series.nextStep =
        if o.netProfit.isSome then p.state.series.nextStep + 1 else p.state.series.nextStep := by
  unfold conclude
  dsimp only
  rw [if_neg (by simp [ho]), if_pos h]
  exact ⟨rfl, rfl, rfl, rfl, rfl⟩

/-- A group that is not final leaves the operation outstanding. -/
theorem conclude_not_final (h : o.final = false) :
    outstanding (p.conclude o).state.status = true ∧
      (p.conclude o).state.currentIntentId = p.state.currentIntentId ∧
      (p.conclude o).state.currentGroupId = p.state.currentGroupId ∧
      (p.conclude o).hasGroup = p.hasGroup ∧
      (p.conclude o).state.series.nextStep = p.state.series.nextStep := by
  unfold conclude
  dsimp only
  split
  · exact ⟨rfl, rfl, rfl, rfl, rfl⟩
  · rw [if_neg (by simp [h])]
    dsimp only
    exact ⟨by split <;> rfl, rfl, rfl, rfl, rfl⟩

end Conclude

/-! ## The invariant -/

structure Inv (p : SeriesProgression) : Prop where
  outstanding : outstanding p.state.status = p.hasGroup
  idle : p.hasGroup = false → p.state.currentIntentId = 0 ∧ p.state.currentGroupId = 0
  busy : p.hasGroup = true → p.state.currentIntentId ≠ 0 ∧
    p.state.series.nextStep < maxSeriesStep ∧
    ∃ op, ExecutionGroupAggregator.Inv op p.group ∧ op.intentId = p.state.currentIntentId ∧
      op.group.groupId = p.state.currentGroupId
  receipt : ∀ {s e}, p.receipts.find? s = some e → e.settlementId = s

theorem Inv.create (series : TradeSeries) : Inv (create series) where
  outstanding := rfl
  idle := fun _ => ⟨rfl, rfl⟩
  busy := fun h => by cases h
  receipt := fun h => by cases h

/-- The operation that `begin` opens. -/
def beginOperation (intent : TradeIntent) (tradeIds : List UInt64) (currency : CurrencyType)
    (precision : UInt8) : Operation :=
  ⟨intent.intentId, beginGroup intent, tradeIds, currency, precision⟩

theorem beginGroup_groupId (intent : TradeIntent) :
    (beginGroup intent).groupId = intent.executionGroup.groupId := by
  unfold beginGroup
  split <;> rfl

theorem Ready.lt_of_ne (h : p.Ready) (hn : p.state.series.nextStep ≠ maxSeriesStep) :
    p.state.series.nextStep < maxSeriesStep := by
  have hl := h.limit
  rw [UInt32.le_iff_toNat_le] at hl
  rw [Ne, ← UInt32.toNat_inj] at hn
  rw [UInt32.lt_iff_toNat_lt]
  omega

/-- The outcome of the group after an accepted event is final only as a ready outcome. -/
theorem record_final {a : ExecutionGroupAggregator} {e : TradeSettlement}
    (h : (a.record e).outcome.final = true) :
    (a.record e).outcome.aggregationStatus ≠ .numericOverflow := by
  have hr := (ExecutionGroupAggregator.aggregate_final
    (a := { a with members := a.members.set e.tradeId (some e) }) h).1
  intro ho
  have : (a.record e).outcome.aggregationStatus = .ready := hr
  rw [ho] at this
  cases this

theorem find?_receipts_advanced {e : TradeSettlement} (h : p.receipts.find? e.settlementId = none)
    (s : SettlementId) : (p.advanced e).receipts.find? s =
      if s = e.settlementId then some e else p.receipts.find? s := by
  simp [advanced, OrderedMap.find?_emplace h]

/-- An event that makes its group final ends the operation. -/
theorem advanced_final {e : TradeSettlement} (h : (p.group.record e).outcome.final = true) :
    (p.advanced e).state.status = .active ∧ (p.advanced e).state.currentIntentId = 0 ∧
      (p.advanced e).state.currentGroupId = 0 ∧ (p.advanced e).hasGroup = false ∧
      (p.advanced e).state.series.nextStep =
        if (p.group.record e).outcome.netProfit.isSome then p.state.series.nextStep + 1
        else p.state.series.nextStep :=
  conclude_final (p := { p with group := p.group.record e }) h (record_final h)

/-- Any other event leaves the operation outstanding. -/
theorem advanced_not_final {e : TradeSettlement} (h : (p.group.record e).outcome.final = false) :
    outstanding (p.advanced e).state.status = true ∧
      (p.advanced e).state.currentIntentId = p.state.currentIntentId ∧
      (p.advanced e).state.currentGroupId = p.state.currentGroupId ∧
      (p.advanced e).hasGroup = p.hasGroup ∧
      (p.advanced e).state.series.nextStep = p.state.series.nextStep :=
  conclude_not_final (p := { p with group := p.group.record e }) h

@[simp] theorem advanced_outcome (e : TradeSettlement) :
    (p.advanced e).state.outcome = (p.group.record e).outcome := by
  simp [advanced]

@[simp] theorem advanced_group (e : TradeSettlement) :
    (p.advanced e).group = p.group.record e := by
  simp [advanced]

/-- Every applied call keeps the invariant. -/
theorem Applied.inv {p' : SeriesProgression} (h : Inv p) (ha : p.Applied c p') : Inv p' := by
  cases ha with
  | begin ready idle room valid newIntent newKey group =>
      rename_i intent tradeIds currency precision rev
      have hi : ExecutionGroupAggregator.Inv (beginOperation intent tradeIds currency precision)
          (beginAggregator intent tradeIds currency precision) := .create group
      have h0 : intent.intentId ≠ 0 :=
        ((ExecutionGroupAggregator.create_valid_iff
          (beginOperation intent tradeIds currency precision)).mp group).1
      exact ⟨rfl, fun h => (by cases h), fun _ => ⟨h0, ready.lt_of_ne room, _, hi, rfl, rfl⟩, h.receipt⟩
  | apply ready new busy waiting member =>
      rename_i event rev
      obtain ⟨hb, hlt, op, hop, hid, hgr⟩ := h.busy busy
      have hrec := hop.record member
      have hreceipt : ∀ {s e}, (p.advanced event).receipts.find? s = some e → e.settlementId = s := by
        intro s e hs
        rw [find?_receipts_advanced new] at hs
        split at hs
        · rename_i he
          rw [Option.some.injEq] at hs
          rw [← hs, he]
        · exact h.receipt hs
      cases hf : (p.group.record event).outcome.final with
      | true =>
          obtain ⟨h1, h2, h3, h4, _⟩ := advanced_final hf
          refine ⟨by rw [h1, h4]; rfl, fun _ => ⟨h2, h3⟩, fun hb => ?_, hreceipt⟩
          rw [h4] at hb
          cases hb
      | false =>
          obtain ⟨h1, h2, h3, h4, h5⟩ := advanced_not_final hf
          refine ⟨by rw [h1, h4, busy], fun hi => ?_, fun _ => ⟨h2 ▸ hb, h5 ▸ hlt, op, ?_, ?_, ?_⟩,
            hreceipt⟩
          · rw [h4, busy] at hi
            cases hi
          · rw [advanced_group]
            exact hrec
          · rw [h2]
            exact hid
          · rw [h3]
            exact hgr
  | complete ready idle =>
      have hn : p.hasGroup = false := by
        have := h.outstanding
        rw [idle] at this
        exact this.symm
      exact ⟨hn ▸ rfl, h.idle, fun hb => by simp [completed, hn] at hb, h.receipt⟩

theorem Inv.step (h : Inv p) (c : Call) : Inv (p.step c).1 := by
  rcases step_cases p c with ⟨_, ha⟩ | ⟨_, he⟩
  · exact ha.inv h
  · rw [he]
    exact h

/-! ## The books of a run -/

abbrev Progress := Lib.Step SeriesProgression Call ProgressionResult

/-- The intent whose operation the step has begun. -/
def begunIntent (t : Progress) : Option TradeIntent :=
  match t.event, t.answer with
  | .begin intent .., .applied => some intent
  | _, _ => none

/-- The settlement that the step has applied. -/
def appliedSettlement (t : Progress) : Option TradeSettlement :=
  match t.event, t.answer with
  | .apply event _, .applied => some event
  | _, _ => none

/-- The settlement with which the step has ended the outstanding operation. -/
def closing (t : Progress) : Option TradeSettlement :=
  (appliedSettlement t).filter (fun _ => t.after.state.outcome.final)

/-- The step has ended an operation that executed money. -/
def executes (t : Progress) : Bool := (closing t).isSome && t.after.state.outcome.netProfit.isSome

section Marks

open Lib.Run (stepOf)

theorem marks_of_not_applied (h : (p.step c).2 ≠ .applied) :
    begunIntent (stepOf step p c) = none ∧ appliedSettlement (stepOf step p c) = none := by
  constructor
  · unfold begunIntent
    split
    · exact absurd ‹_› h
    · rfl
  · unfold appliedSettlement
    split
    · exact absurd ‹_› h
    · rfl

theorem closing_of_none {t : Progress} (h : appliedSettlement t = none) : closing t = none := by
  simp [closing, h]

theorem marks_begin {intent tradeIds currency precision rev}
    (h : (p.step (.begin intent tradeIds currency precision rev)).2 = .applied) :
    begunIntent (stepOf step p (.begin intent tradeIds currency precision rev)) = some intent ∧
      appliedSettlement (stepOf step p (.begin intent tradeIds currency precision rev)) = none := by
  simp [begunIntent, appliedSettlement, h]

theorem marks_apply {event rev} (h : (p.step (.apply event rev)).2 = .applied) :
    begunIntent (stepOf step p (.apply event rev)) = none ∧
      appliedSettlement (stepOf step p (.apply event rev)) = some event := by
  simp [begunIntent, appliedSettlement, h]

theorem marks_complete (p : SeriesProgression) (rev : UInt64) :
    begunIntent (stepOf step p (.complete rev)) = none ∧
      appliedSettlement (stepOf step p (.complete rev)) = none := by
  simp [begunIntent, appliedSettlement]

end Marks

/-- What a run from `create series` has recorded. -/
structure Books (series : TradeSeries) (ts : List Progress) (p : SeriesProgression) : Prop where
  inv : Inv p
  /-- Every begun operation but the outstanding one was ended by one of its settlements. -/
  operations : (ts.filterMap begunIntent).map (·.intentId) =
    (ts.filterMap closing).map (·.intentId) ++
      if p.hasGroup then [p.state.currentIntentId] else []
  current : p.hasGroup = true → ∃ i, (ts.filterMap begunIntent).getLast? = some i ∧
    p.state.currentIntentId = i.intentId ∧ p.state.currentGroupId = i.executionGroup.groupId
  nextStep : p.state.series.nextStep.toNat = series.nextStep.toNat + ts.countP executes
  limit : series.nextStep ≤ maxSeriesStep → p.state.series.nextStep ≤ maxSeriesStep
  revision : p.state.series.stateRevision.toNat =
    series.stateRevision.toNat + ts.countP (fun t => t.answer == .applied)
  receipts : ∀ e ∈ ts.filterMap appliedSettlement, p.receipts.find? e.settlementId = some e
  settlements : ((ts.filterMap appliedSettlement).map (·.settlementId)).Nodup
  usedIntents : ∀ i ∈ ts.filterMap begunIntent, p.usedIntents.find? i.intentId = some ()
  intents : ((ts.filterMap begunIntent).map (·.intentId)).Nodup
  usedKeys : ∀ i ∈ ts.filterMap begunIntent, p.usedIntentKeys.find? i.idempotencyKey = some ()
  keys : ((ts.filterMap begunIntent).map (·.idempotencyKey)).Nodup

theorem Books.nil (series : TradeSeries) : Books series [] (SeriesProgression.create series) where
  inv := .create series
  operations := rfl
  current := fun h => by cases h
  nextStep := rfl
  limit := fun h => h
  revision := rfl
  receipts := by simp
  settlements := by simp
  usedIntents := by simp
  intents := by simp
  usedKeys := by simp
  keys := by simp

theorem Ready.revision_succ (h : p.Ready) :
    (p.state.series.stateRevision + 1).toNat = p.state.series.stateRevision.toNat + 1 := by
  have hr := h.revision
  have hlt := p.state.series.stateRevision.toNat_lt
  rw [Ne, ← UInt64.toNat_inj] at hr
  rw [UInt64.toNat_add, UInt64.toNat_one]
  have : (18446744073709551615 : UInt64).toNat = 18446744073709551615 := rfl
  omega

theorem nextStep_succ {n : UInt32} (h : n < maxSeriesStep) : (n + 1).toNat = n.toNat + 1 := by
  rw [UInt32.lt_iff_toNat_lt] at h
  have : maxSeriesStep.toNat = 2147483647 := rfl
  rw [UInt32.toNat_add, UInt32.toNat_one]
  omega

/-- The settlement that a busy series applies belongs to its outstanding operation. -/
theorem Inv.check_current (h : Inv p) (hb : p.hasGroup = true) {e : TradeSettlement}
    (hc : p.group.check e = .applied) : e.intentId = p.state.currentIntentId := by
  obtain ⟨_, _, op, hop, hid, _⟩ := h.busy hb
  exact (hop.check_eq_applied.mp hc).2.1.intentId.trans hid

theorem closing_apply {event rev} (happlied : (p.step (.apply event rev)).2 = .applied)
    (hstate : (p.step (.apply event rev)).1 = p.advanced event) :
    closing (Lib.Run.stepOf step p (.apply event rev)) =
      if (p.group.record event).outcome.final then some event else none := by
  simp [closing, (marks_apply happlied).2, hstate, Option.filter]

/-- An applied event advances the series exactly when it ends an operation with executed money. -/
theorem nextStep_advanced {event rev} (happlied : (p.step (.apply event rev)).2 = .applied)
    (hstate : (p.step (.apply event rev)).1 = p.advanced event)
    (hlt : p.state.series.nextStep < maxSeriesStep) :
    (p.advanced event).state.series.nextStep.toNat = p.state.series.nextStep.toNat +
      if executes (Lib.Run.stepOf step p (.apply event rev)) then 1 else 0 := by
  have hexe : executes (Lib.Run.stepOf step p (.apply event rev)) =
      ((p.group.record event).outcome.final && (p.group.record event).outcome.netProfit.isSome) := by
    rw [executes, closing_apply happlied hstate, Lib.Run.stepOf_after, hstate, advanced_outcome]
    cases (p.group.record event).outcome.final <;> simp
  rw [hexe]
  cases hf : (p.group.record event).outcome.final with
  | true =>
      rw [(advanced_final hf).2.2.2.2]
      cases (p.group.record event).outcome.netProfit.isSome
      · simp
      · simp [nextStep_succ hlt]
  | false =>
      rw [(advanced_not_final hf).2.2.2.2]
      simp

/-- One call: the step counter moves with `executes`, the revision with the answer. -/
theorem Inv.counters (h : Inv p) (c : Call) :
    (p.step c).1.state.series.nextStep.toNat = p.state.series.nextStep.toNat +
        (if executes (Lib.Run.stepOf SeriesProgression.step p c) then 1 else 0) ∧
      ((p.step c).2 = .applied → (p.step c).1.state.series.stateRevision.toNat =
        p.state.series.stateRevision.toNat + 1) ∧
      ((p.step c).2 ≠ .applied → (p.step c).1 = p) := by
  rcases step_cases p c with ⟨happlied, ha⟩ | ⟨hn, he⟩
  · refine ⟨?_, fun _ => ?_, fun hn => absurd happlied hn⟩
    · generalize hs : (p.step c).1 = p' at ha
      cases ha with
      | begin =>
          simp [executes, closing_of_none (marks_begin happlied).2, begun]
      | apply ready new busy waiting member =>
          exact nextStep_advanced happlied hs (h.busy busy).2.1
      | complete => simp [executes, closing_of_none (marks_complete _ _).2, completed]
    · generalize (p.step c).1 = p' at ha
      cases ha with
      | begin ready => exact ready.revision_succ
      | apply ready => simpa [advanced] using ready.revision_succ
      | complete ready => exact ready.revision_succ
  · refine ⟨?_, fun ha => absurd ha hn, fun _ => he⟩
    simp [executes, closing_of_none (marks_of_not_applied hn).2, he]

/-- An outstanding operation can neither be completed nor joined by another one. -/
theorem not_applied_of_outstanding (hs : outstanding p.state.status = true)
    (hc : ∀ event rev, c ≠ .apply event rev) : (p.step c).2 ≠ .applied := by
  intro happlied
  rcases step_cases p c with ⟨_, ha⟩ | ⟨hn, _⟩
  · generalize (p.step c).1 = p' at ha
    cases ha with
    | begin ready idle =>
        rw [idle] at hs
        cases hs
    | apply => exact hc _ _ rfl
    | complete ready idle =>
        rw [idle] at hs
        cases hs
  · exact hn happlied

/-- A settlement with a receipt is answered as a duplicate, whatever revision is expected. -/
theorem apply_duplicate {e : TradeSettlement} (h : p.receipts.find? e.settlementId = some e)
    (rev : UInt64) : p.apply e rev = (p, .duplicate) := by
  simp [SeriesProgression.apply, checkApply, h]

/-- A call that is not applied adds nothing to the books. -/
theorem Books.rejected {series ts} (h : Books series ts p) (hn : (p.step c).2 ≠ .applied)
    (he : (p.step c).1 = p) :
    Books series (ts ++ [Lib.Run.stepOf step p c]) (p.step c).1 := by
  obtain ⟨hbeg, happ⟩ := marks_of_not_applied hn
  have hclo := closing_of_none happ
  have hexe : executes (Lib.Run.stepOf step p c) = false := by simp [executes, hclo]
  rw [he]
  exact
    { inv := h.inv
      operations := by simpa [hbeg, hclo] using h.operations
      current := by simpa [hbeg] using h.current
      nextStep := by simpa [hexe, List.countP_append] using h.nextStep
      limit := h.limit
      revision := by simpa [hn, List.countP_append] using h.revision
      receipts := by simpa [happ] using h.receipts
      settlements := by simpa [happ] using h.settlements
      usedIntents := by simpa [hbeg] using h.usedIntents
      intents := by simpa [hbeg] using h.intents
      usedKeys := by simpa [hbeg] using h.usedKeys
      keys := by simpa [hbeg] using h.keys }

theorem Books.begin {series ts} (h : Books series ts p) {intent tradeIds currency precision rev}
    (happlied : (p.step (.begin intent tradeIds currency precision rev)).2 = .applied)
    (hstate : (p.step (.begin intent tradeIds currency precision rev)).1 =
      p.begun intent tradeIds currency precision)
    (ha : p.Applied (.begin intent tradeIds currency precision rev)
      (p.begun intent tradeIds currency precision)) :
    Books series (ts ++ [Lib.Run.stepOf step p (.begin intent tradeIds currency precision rev)])
      (p.begun intent tradeIds currency precision) := by
  obtain ⟨hbeg, happ⟩ := marks_begin happlied
  have hclo := closing_of_none happ
  have hexe : executes (Lib.Run.stepOf step p
    (.begin intent tradeIds currency precision rev)) = false := by simp [executes, hclo]
  have hinv := ha.inv h.inv
  cases ha with
  | begin ready idle room valid newIntent newKey group =>
  have hfree : p.hasGroup = false := by
    have := h.inv.outstanding
    rw [idle] at this
    exact this.symm
  have hi : ∀ k, (p.begun intent tradeIds currency precision).usedIntents.find? k =
      if k = intent.intentId then some () else p.usedIntents.find? k :=
    OrderedMap.find?_emplace newIntent ()
  have hk : ∀ k, (p.begun intent tradeIds currency precision).usedIntentKeys.find? k =
      if k = intent.idempotencyKey then some () else p.usedIntentKeys.find? k :=
    OrderedMap.find?_emplace newKey ()
  exact
    { inv := hinv
      operations := by
        have := h.operations
        simp only [hfree, Bool.false_eq_true, if_false, List.append_nil] at this
        simp [hbeg, hclo, this, begun]
      current := fun _ => ⟨intent, by simp [hbeg], rfl, beginGroup_groupId intent⟩
      nextStep := by simpa [hexe, List.countP_append, begun] using h.nextStep
      limit := h.limit
      revision := by
        simp [happlied, List.countP_append, begun, ready.revision_succ, h.revision, Nat.add_assoc]
      receipts := by simpa [happ, begun] using h.receipts
      settlements := by simpa [happ] using h.settlements
      usedIntents := by
        intro i hmem
        rw [hi]
        split
        · rfl
        · rename_i hne
          simp only [List.filterMap_append, List.filterMap_cons, hbeg, List.filterMap_nil,
            List.mem_append, List.mem_singleton] at hmem
          rcases hmem with hmem | rfl
          · exact h.usedIntents i hmem
          · exact absurd rfl hne
      intents := by
        simp only [List.filterMap_append, List.filterMap_cons, hbeg, List.filterMap_nil,
          List.map_append, List.map_cons, List.map_nil]
        refine List.nodup_append.mpr ⟨h.intents, by simp, fun x hx y hy => ?_⟩
        obtain ⟨i, hmem, rfl⟩ := List.mem_map.mp hx
        rintro rfl
        rw [List.mem_singleton] at hy
        rw [← hy, h.usedIntents i hmem] at newIntent
        cases newIntent
      usedKeys := by
        intro i hmem
        rw [hk]
        split
        · rfl
        · rename_i hne
          simp only [List.filterMap_append, List.filterMap_cons, hbeg, List.filterMap_nil,
            List.mem_append, List.mem_singleton] at hmem
          rcases hmem with hmem | rfl
          · exact h.usedKeys i hmem
          · exact absurd rfl hne
      keys := by
        simp only [List.filterMap_append, List.filterMap_cons, hbeg, List.filterMap_nil,
          List.map_append, List.map_cons, List.map_nil]
        refine List.nodup_append.mpr ⟨h.keys, by simp, fun x hx y hy => ?_⟩
        obtain ⟨i, hmem, rfl⟩ := List.mem_map.mp hx
        rintro rfl
        rw [List.mem_singleton] at hy
        rw [← hy, h.usedKeys i hmem] at newKey
        cases newKey }

theorem Books.apply {series ts} (h : Books series ts p) {event rev}
    (happlied : (p.step (.apply event rev)).2 = .applied)
    (hstate : (p.step (.apply event rev)).1 = p.advanced event)
    (ha : p.Applied (.apply event rev) (p.advanced event)) :
    Books series (ts ++ [Lib.Run.stepOf step p (.apply event rev)]) (p.advanced event) := by
  obtain ⟨hbeg, happ⟩ := marks_apply happlied
  have hclo := closing_apply happlied hstate
  have hinv := ha.inv h.inv
  cases ha with
  | apply ready new busy waiting member =>
  have hcur := h.inv.check_current busy member
  obtain ⟨_, hlt, _⟩ := h.inv.busy busy
  have hops := h.operations
  simp only [busy, if_true] at hops
  have hrec := find?_receipts_advanced (p := p) new
  have hrev : (p.advanced event).state.series.stateRevision.toNat =
      series.stateRevision.toNat +
        (ts ++ [Lib.Run.stepOf step p (.apply event rev)]).countP (fun t => t.answer == .applied) := by
    simp [happlied, List.countP_append, advanced, ready.revision_succ, h.revision, Nat.add_assoc]
  have hnext := nextStep_advanced happlied hstate hlt
  have hmem : ∀ e, e ∈ (ts ++ [Lib.Run.stepOf step p (.apply event rev)]).filterMap appliedSettlement ↔
      e ∈ ts.filterMap appliedSettlement ∨ e = event := by
    intro e
    simp [happ]
  exact
    { inv := hinv
      operations := by
        cases hf : (p.group.record event).outcome.final with
        | true =>
            rw [(advanced_final hf).2.2.2.1]
            simp [hbeg, hclo, hf, hops, hcur]
        | false =>
            obtain ⟨_, h2, _, h4, _⟩ := advanced_not_final hf
            rw [h2, h4, busy]
            simp [hbeg, hclo, hf, hops]
      current := by
        intro hb
        cases hf : (p.group.record event).outcome.final with
        | true =>
            rw [(advanced_final hf).2.2.2.1] at hb
            cases hb
        | false =>
            obtain ⟨_, h2, h3, _, _⟩ := advanced_not_final hf
            obtain ⟨i, hi⟩ := h.current busy
            refine ⟨i, ?_⟩
            rw [h2, h3]
            simpa [hbeg] using hi
      nextStep := by
        rw [hnext, h.nextStep, List.countP_append, Nat.add_assoc, List.countP_singleton]
      limit := by
        intro _
        rw [UInt32.le_iff_toNat_le, hnext]
        rw [UInt32.lt_iff_toNat_lt] at hlt
        split <;> omega
      revision := hrev
      receipts := by
        intro e he
        rw [hrec]
        split
        · rename_i hs
          rcases (hmem e).mp he with he | rfl
          · rw [← hs, h.receipts e he] at new
            cases new
          · rfl
        · rename_i hs
          rcases (hmem e).mp he with he | rfl
          · exact h.receipts e he
          · exact absurd rfl hs
      settlements := by
        simp only [List.filterMap_append, List.filterMap_cons, happ, List.filterMap_nil,
          List.map_append, List.map_cons, List.map_nil]
        refine List.nodup_append.mpr ⟨h.settlements, by simp, fun x hx y hy => ?_⟩
        obtain ⟨e, he, rfl⟩ := List.mem_map.mp hx
        rintro rfl
        rw [List.mem_singleton] at hy
        rw [← hy, h.receipts e he] at new
        cases new
      usedIntents := by simpa [hbeg, advanced] using h.usedIntents
      intents := by simpa [hbeg] using h.intents
      usedKeys := by simpa [hbeg, advanced] using h.usedKeys
      keys := by simpa [hbeg] using h.keys }

theorem Books.complete {series ts} (h : Books series ts p) {rev}
    (happlied : (p.step (.complete rev)).2 = .applied)
    (ha : p.Applied (.complete rev) p.completed) :
    Books series (ts ++ [Lib.Run.stepOf step p (.complete rev)]) p.completed := by
  obtain ⟨hbeg, happ⟩ := marks_complete p rev
  have hclo := closing_of_none happ
  have hexe : executes (Lib.Run.stepOf step p (.complete rev)) = false := by simp [executes, hclo]
  have hinv := ha.inv h.inv
  cases ha with
  | complete ready idle =>
  exact
    { inv := hinv
      operations := by
        have hfree : p.hasGroup = false := (h.inv.outstanding.symm.trans (by rw [idle]; rfl))
        have := h.operations
        simp only [hfree, Bool.false_eq_true, if_false, List.append_nil] at this
        simp [hbeg, hclo, this, completed, hfree]
      current := by simpa [hbeg, completed] using h.current
      nextStep := by simpa [hexe, List.countP_append, completed] using h.nextStep
      limit := h.limit
      revision := by
        simp [happlied, List.countP_append, completed, ready.revision_succ, h.revision, Nat.add_assoc]
      receipts := by simpa [happ, completed] using h.receipts
      settlements := by simpa [happ] using h.settlements
      usedIntents := by simpa [hbeg, completed] using h.usedIntents
      intents := by simpa [hbeg] using h.intents
      usedKeys := by simpa [hbeg, completed] using h.usedKeys
      keys := by simpa [hbeg] using h.keys }

/-- One call keeps the books. -/
theorem Books.step {series ts} (h : Books series ts p) (c : Call) :
    Books series (ts ++ [Lib.Run.stepOf step p c]) (p.step c).1 := by
  rcases step_cases p c with ⟨happlied, ha⟩ | ⟨hn, he⟩
  · generalize hs : (p.step c).1 = p' at ha
    cases ha with
    | begin ready idle room valid newIntent newKey group =>
        exact h.begin happlied hs (.begin ready idle room valid newIntent newKey group)
    | apply ready new busy waiting member =>
        exact h.apply happlied hs (.apply ready new busy waiting member)
    | complete ready idle => exact h.complete happlied (.complete ready idle)
  · exact h.rejected hn he

/-- Every run keeps the books. -/
theorem books (series : TradeSeries) (cs : List Call) :
    Books series (Lib.Run.trace step (SeriesProgression.create series) cs)
      (Lib.Run.exec step (SeriesProgression.create series) cs) :=
  Lib.Run.history_induct' (fun _ _ c h => h.step c) (.nil series) cs

end SeriesProgression

end OptionX.TradingSystem
