import OptionX.TradingSystem.Lemmas.Progression
import OptionX.TradingSystem.Lemmas.RiskStep

/-!
# Settlement evidence and the live progression

`validFor` rebuilds the roster from the settlements and replays them through a fresh aggregator. What it
accepts is what the aggregator of the outstanding operation has reached, in whatever order the settlements
are listed.
-/

namespace OptionX.TradingSystem

open Lib (OrderedMap OrderedSet)

open ExecutionGroupAggregator (terminals)

/-! ## Replays -/

namespace ExecutionGroupAggregator

variable {op : Operation} {a : ExecutionGroupAggregator}

theorem receipts_mono_deliver (a : ExecutionGroupAggregator) (es : List TradeSettlement)
    {s : SettlementId} {x : TradeSettlement} (h : a.receipts.find? s = some x) :
    (a.deliver es).receipts.find? s = some x := by
  induction es generalizing a with
  | nil => exact h
  | cons e es ih => exact ih _ (receipts_mono a e h)

/-- When every event of a list has been applied to a fresh aggregator, the members hold exactly them. -/
theorem terminals_perm (ha : Inv op a)
    {es : List TradeSettlement} (hnd : es.Nodup) (ht : ∀ e ∈ es, e.terminal = true)
    (hsub : ∀ s x, a.receipts.find? s = some x → x ∈ es)
    (hall : ∀ e ∈ es, a.receipts.find? e.settlementId = some e) :
    (terminals a.members.values).Perm es := by
  refine (List.perm_ext_iff_of_nodup ha.terminals_nodup hnd).mpr (fun e => ?_)
  rw [ha.mem_terminals]
  exact ⟨fun h => hsub _ _ h.2, fun h => ⟨ht e h, hall e h⟩⟩

/-- A member of the group is open for `e` after another member's event. -/
theorem Inv.open_apply (h : Inv op a) {e x : TradeSettlement} (hk : x.tradeId ≠ e.tradeId)
    (ho : ∀ t, a.members.find? x.tradeId = some (some t) → t.terminal = false) :
    ∀ t, (a.apply e).1.members.find? x.tradeId = some (some t) → t.terminal = false := by
  intro t ht
  rw [apply_fst] at ht
  split at ht
  · rename_i hc
    obtain ⟨_, hadm, _⟩ := h.check_eq_applied.mp hc
    obtain ⟨v, hv⟩ := h.mem_roster.mp hadm.member
    simp only [ExecutionGroupAggregator.record, OrderedMap.find?_set hv, if_neg hk] at ht
    exact ho t ht
  · exact ho t ht

end ExecutionGroupAggregator

namespace RiskSettlementEvidence

open ExecutionGroupAggregator (Inv)

variable {op : Operation} {a a' : ExecutionGroupAggregator}

/-- A completed replay has delivered every settlement and has a receipt for each. -/
theorem replay_eq {es : List TradeSettlement} (h : replay a es = some a') :
    a' = a.deliver es ∧ ∀ e ∈ es, a'.receipts.find? e.settlementId = some e := by
  induction es generalizing a with
  | nil => exact ⟨(Option.some.inj h).symm, by simp⟩
  | cons e es ih =>
      unfold replay at h
      split at h
      swap
      · cases h
      rename_i a₁ happ
      have h₁ : a₁ = (a.apply e).1 := by rw [happ]
      have hc : (a.apply e).2 = .applied := by rw [happ]
      rw [h₁] at h
      obtain ⟨heq, hall⟩ := ih h
      refine ⟨heq, fun x hx => ?_⟩
      rcases List.mem_cons.mp hx with rfl | hx
      · rw [ExecutionGroupAggregator.apply_snd] at hc
        rw [heq]
        refine ExecutionGroupAggregator.receipts_mono_deliver _ es ?_
        rw [ExecutionGroupAggregator.find?_receipts_apply, if_pos ⟨hc, rfl⟩]
      · exact hall x hx

/-- Events of the group for distinct open members, under new distinct ids, are all applied. -/
theorem replay_complete (ha : Inv op a) {es : List TradeSettlement} (hadm : ∀ e ∈ es, op.Admits e)
    (hs : (es.map (·.settlementId)).Nodup) (hk : (es.map (·.tradeId)).Nodup)
    (hnew : ∀ e ∈ es, a.receipts.find? e.settlementId = none)
    (hopen : ∀ e ∈ es, ∀ t, a.members.find? e.tradeId = some (some t) → t.terminal = false) :
    replay a es = some (a.deliver es) := by
  induction es generalizing a with
  | nil => rfl
  | cons e es ih =>
      have hc : a.check e = .applied :=
        ha.check_eq_applied.mpr ⟨hnew e (by simp), hadm e (by simp), hopen e (by simp)⟩
      have happ : a.apply e = ((a.apply e).1, .applied) := by
        rw [← hc, ← ExecutionGroupAggregator.apply_snd]
      simp only [List.map_cons, List.nodup_cons, List.mem_map, not_exists, not_and] at hs hk
      unfold replay
      rw [happ]
      refine ih (ha.apply e) (fun x hx => hadm x (by simp [hx])) hs.2 hk.2 (fun x hx => ?_)
        (fun x hx => ha.open_apply (hk.1 x hx) (hopen x (by simp [hx])))
      rw [ExecutionGroupAggregator.find?_receipts_apply, if_neg (fun h => hs.1 x hx h.2)]
      exact hnew x (by simp [hx])

/-! ## The roster of the evidence -/

/-- The settlements that `collect` accepts. -/
structure Collectable (intentId : IntentId) (groupId : ExecutionGroupId)
    (settlementIds : OrderedSet SettlementId) (tradeIds : OrderedSet UInt64)
    (es : List TradeSettlement) : Prop where
  event : ∀ e ∈ es, e.valid = true ∧ e.terminal = true ∧ e.intentId = intentId ∧
    e.executionGroupId = groupId
  settlements : (es.map (·.settlementId)).Nodup
  newSettlements : ∀ e ∈ es, settlementIds.find? e.settlementId = none
  trades : (es.map (·.tradeId)).Nodup
  newTrades : ∀ e ∈ es, tradeIds.find? e.tradeId = none

theorem keys_emplace {m : OrderedSet UInt64} {k : UInt64} (h : m.find? k = none) :
    (m.emplace k ()).keys.Perm (k :: m.keys) := by
  simpa [OrderedMap.keys] using (OrderedMap.emplace_perm h ()).map Prod.fst

/-- `collect` accepts exactly these and returns their trade ids. -/
theorem collect_eq_some {intentId : IntentId} {groupId : ExecutionGroupId}
    {settlementIds : OrderedSet SettlementId} {tradeIds : OrderedSet UInt64}
    {es : List TradeSettlement} :
    (Collectable intentId groupId settlementIds tradeIds es →
        ∃ out, collect intentId groupId settlementIds tradeIds es = some out ∧
          out.keys.Perm (es.map (·.tradeId) ++ tradeIds.keys)) ∧
      (∀ out, collect intentId groupId settlementIds tradeIds es = some out →
        Collectable intentId groupId settlementIds tradeIds es) := by
  induction es generalizing settlementIds tradeIds with
  | nil => exact ⟨fun _ => ⟨tradeIds, rfl, .refl _⟩, fun _ _ => ⟨by simp, by simp, by simp, by simp, by simp⟩⟩
  | cons e es ih =>
      constructor
      · intro h
        obtain ⟨hv, ht, hi, hg⟩ := h.event e (by simp)
        have hs := h.newSettlements e (by simp)
        have hk := h.newTrades e (by simp)
        have hsn := h.settlements
        have hkn := h.trades
        simp only [List.map_cons, List.nodup_cons, List.mem_map, not_exists, not_and] at hsn hkn
        have hrest : Collectable intentId groupId (settlementIds.emplace e.settlementId ())
            (tradeIds.emplace e.tradeId ()) es := by
          refine ⟨fun x hx => h.event x (by simp [hx]), hsn.2, fun x hx => ?_, hkn.2, fun x hx => ?_⟩
          · rw [OrderedMap.find?_emplace hs, if_neg (hsn.1 x hx)]
            exact h.newSettlements x (by simp [hx])
          · rw [OrderedMap.find?_emplace hk, if_neg (hkn.1 x hx)]
            exact h.newTrades x (by simp [hx])
        obtain ⟨out, hout, hperm⟩ := ih.1 hrest
        refine ⟨out, ?_, hperm.trans ?_⟩
        · unfold collect
          rw [if_neg]
          · exact hout
          · simp [hv, ht, hi, hg, OrderedMap.contains_eq_false.mpr hs,
              OrderedMap.contains_eq_false.mpr hk]
        · simp only [List.map_cons, List.cons_append]
          exact ((keys_emplace hk).append_left _).trans List.perm_middle
      · intro out h
        unfold collect at h
        split at h
        · cases h
        rename_i hc
        simp only [Bool.or_eq_true, Bool.not_eq_true', bne_iff_ne, ne_eq, not_or, Bool.not_eq_false,
          not_not, Bool.not_eq_true, OrderedMap.contains_eq_false] at hc
        obtain ⟨⟨⟨⟨⟨hv, ht⟩, hi⟩, hg⟩, hs⟩, hk⟩ := hc
        have hrest := ih.2 out h
        have hs' : ∀ x ∈ es, x.settlementId ≠ e.settlementId ∧
            settlementIds.find? x.settlementId = none := by
          intro x hx
          have := hrest.newSettlements x hx
          rw [OrderedMap.find?_emplace hs] at this
          split at this
          · cases this
          · exact ⟨‹_›, this⟩
        have hk' : ∀ x ∈ es, x.tradeId ≠ e.tradeId ∧ tradeIds.find? x.tradeId = none := by
          intro x hx
          have := hrest.newTrades x hx
          rw [OrderedMap.find?_emplace hk] at this
          split at this
          · cases this
          · exact ⟨‹_›, this⟩
        refine ⟨?_, ?_, ?_, ?_, ?_⟩
        · simpa [hv, ht, hi, hg] using hrest.event
        · simp only [List.map_cons, List.nodup_cons, List.mem_map, not_exists, not_and]
          exact ⟨fun x hx => (hs' x hx).1, hrest.settlements⟩
        · simpa [hs] using fun x hx => (hs' x hx).2
        · simp only [List.map_cons, List.nodup_cons, List.mem_map, not_exists, not_and]
          exact ⟨fun x hx => (hk' x hx).1, hrest.trades⟩
        · simpa [hk] using fun x hx => (hk' x hx).2

/-- `sameOutcome` compares every field. -/
theorem sameOutcome_iff {lhs rhs : GroupOutcome} : sameOutcome lhs rhs = true ↔ lhs = rhs := by
  obtain ⟨f, u, m, c, st, k, n⟩ := lhs
  obtain ⟨f', u', m', c', st', k', n'⟩ := rhs
  unfold sameOutcome
  cases n with
  | none =>
      cases n' with
      | none => simp; tauto
      | some v => simp
  | some v =>
      cases n' with
      | none => simp
      | some v' =>
          obtain ⟨x, y, z⟩ := v
          obtain ⟨x', y', z'⟩ := v'
          simp only [GroupOutcome.mk.injEq, Option.some.injEq, MoneyAmount.mk.injEq]
          split
          · rename_i h
            simp only [Bool.or_eq_true, bne_iff_ne, ne_eq] at h
            simp only [Bool.false_eq_true, false_iff]
            tauto
          · rename_i h
            simp only [Option.isSome_some, bne_self_eq_false, Bool.or_false, Bool.or_eq_true,
              bne_iff_ne, ne_eq, not_or, not_not] at h
            simp only [Bool.and_eq_true, beq_iff_eq]
            tauto

/-- The operation that evidence for a reservation is replayed for. -/
def operation (r : RiskReservation) (tradeIds : List UInt64) : Operation :=
  ⟨r.intentId, r.executionGroup, tradeIds, r.potentialRisk.currency, r.potentialRisk.precision⟩

/-- What evidence has to claim before its settlements are looked at. -/
structure Claims (evidence : RiskSettlementEvidence) (r : RiskReservation) : Prop where
  reservationId : evidence.reservationId = r.reservationId
  intentId : evidence.intentId = r.intentId
  group : evidence.executionGroup = r.executionGroup
  final : evidence.outcome.final = true
  complete : evidence.outcome.allMembersTerminal = true
  resolved : evidence.outcome.unresolved = false
  ready : evidence.outcome.aggregationStatus = .ready
  kind : evidence.outcome.kind.isSome = true
  completed : evidence.outcome.completedMembers = r.executionGroup.expectedMembers
  length : evidence.settlements.length = r.executionGroup.expectedMembers.toNat

theorem validFor_iff {evidence : RiskSettlementEvidence} {r : RiskReservation} :
    evidence.validFor r = true ↔ evidence.Claims r ∧
      ∃ tradeIds, collect r.intentId r.executionGroup.groupId .empty .empty evidence.settlements =
          some tradeIds ∧ (operation r tradeIds.keys).aggregator.valid = true ∧
        ∃ a, replay (operation r tradeIds.keys).aggregator evidence.settlements = some a ∧
          a.outcome = evidence.outcome := by
  have hclaims : evidence.Claims r ↔ ¬ (evidence.reservationId != r.reservationId ||
      evidence.intentId != r.intentId ||
      evidence.executionGroup.groupId != r.executionGroup.groupId ||
      evidence.executionGroup.expectedMembers != r.executionGroup.expectedMembers ||
      !evidence.outcome.final || !evidence.outcome.allMembersTerminal ||
      evidence.outcome.unresolved || evidence.outcome.aggregationStatus != .ready ||
      evidence.outcome.kind.isNone ||
      evidence.outcome.completedMembers != evidence.executionGroup.expectedMembers ||
      evidence.settlements.length != evidence.executionGroup.expectedMembers.toNat) = true := by
    simp only [Bool.or_eq_true, Bool.not_eq_true', bne_iff_ne, ne_eq, not_or, Bool.not_eq_false,
      not_not, Bool.not_eq_true, Option.isNone_eq_false_iff]
    constructor
    · rintro ⟨h1, h2, h3, h4, h5, h6, h7, h8, h9, h10⟩
      rw [h3]
      exact ⟨⟨⟨⟨⟨⟨⟨⟨⟨⟨h1, h2⟩, rfl⟩, rfl⟩, h4⟩, h5⟩, h6⟩, h7⟩, h8⟩, h9⟩, h10⟩
    · rintro ⟨⟨⟨⟨⟨⟨⟨⟨⟨⟨h1, h2⟩, h3⟩, h3'⟩, h4⟩, h5⟩, h6⟩, h7⟩, h8⟩, h9⟩, h10⟩
      rw [h3'] at h9 h10
      have hg : evidence.executionGroup = r.executionGroup := by
        cases h : evidence.executionGroup
        cases h' : r.executionGroup
        simp_all
      exact ⟨h1, h2, hg, h4, h5, h6, h7, h8, h9, h10⟩
  unfold validFor
  by_cases hc : evidence.Claims r
  swap
  · rw [if_pos (Classical.not_not.mp (fun h => hc (hclaims.mpr h)))]
    simp [hc]
  rw [if_neg (hclaims.mp hc), hc.intentId, hc.group]
  simp only [hc, true_and]
  cases hcol : collect r.intentId r.executionGroup.groupId .empty .empty evidence.settlements with
  | none => simp
  | some tradeIds =>
      dsimp only
      have hop : ExecutionGroupAggregator.create r.intentId r.executionGroup tradeIds.keys
          r.potentialRisk.currency r.potentialRisk.precision =
            (operation r tradeIds.keys).aggregator := rfl
      rw [hop]
      by_cases hv : (operation r tradeIds.keys).aggregator.valid = true
      swap
      · rw [if_pos (by simpa using hv)]
        simp [hv]
      rw [if_neg (by simpa using hv)]
      cases hrep : replay (operation r tradeIds.keys).aggregator evidence.settlements with
      | none => simp [hrep]
      | some a =>
          dsimp only
          constructor
          · intro h
            split at h
            · cases h
            · exact ⟨tradeIds, rfl, hv, a, hrep, sameOutcome_iff.mp h⟩
          · rintro ⟨tradeIds', ht, _, a', hr', ho⟩
            obtain rfl := Option.some.inj ht
            rw [hrep] at hr'
            obtain rfl := Option.some.inj hr'
            rw [if_neg (by simp [ho, hc.ready])]
            exact sameOutcome_iff.mpr ho

end RiskSettlementEvidence

/-- A final exact outcome counts every member, is ready and has a kind. -/
theorem exactOutcome_final {expected : UInt32} {zero : MoneyAmount} {es : List TradeSettlement}
    {u : Bool} (h : (exactOutcome expected zero es u).final = true) :
    es.length = expected.toNat ∧ (exactOutcome expected zero es u).aggregationStatus = .ready ∧
      (exactOutcome expected zero es u).allMembersTerminal = true ∧
      (exactOutcome expected zero es u).kind.isSome = true ∧
      (exactOutcome expected zero es u).completedMembers = expected ∧
      (exactOutcome expected zero es u).unresolved = u := by
  unfold exactOutcome at h ⊢
  dsimp only at h ⊢
  split at h
  · cases h
  · rename_i hn
    rw [if_neg hn]
    simp only [beq_iff_eq] at h
    simp [h]

/-! ## The outstanding operation -/

namespace SeriesProgression

/-- Applies events with the revisions that the caller expects, whatever the answers. -/
def applyAll (p : SeriesProgression) (es : List (TradeSettlement × UInt64)) : SeriesProgression :=
  es.foldl (fun p e => (p.apply e.1 e.2).1) p

@[simp] theorem applyAll_nil (p : SeriesProgression) : p.applyAll [] = p := rfl

@[simp] theorem applyAll_cons (p : SeriesProgression) (e : TradeSettlement × UInt64)
    (es : List (TradeSettlement × UInt64)) :
    p.applyAll (e :: es) = (p.apply e.1 e.2).1.applyAll es := rfl

/-- Every one of these events is applied. -/
def AllApplied (p : SeriesProgression) : List (TradeSettlement × UInt64) → Prop
  | [] => True
  | e :: es => (p.apply e.1 e.2).2 = .applied ∧ AllApplied (p.apply e.1 e.2).1 es

/-- The series has followed one operation since it was begun. -/
structure Follows (op : Operation) (seen : List TradeSettlement) (p : SeriesProgression) : Prop where
  inv : ExecutionGroupAggregator.Inv op p.group
  outcome : p.state.outcome = p.group.outcome
  receipts : ∀ s x, p.group.receipts.find? s = some x → x ∈ seen

variable {op : Operation} {p : SeriesProgression} {seen : List TradeSettlement}

theorem Follows.begun {intent tradeIds currency precision}
    (h : (beginAggregator intent tradeIds currency precision).valid = true) :
    Follows (beginOperation intent tradeIds currency precision) []
      (p.begun intent tradeIds currency precision) := by
  have h : (beginOperation intent tradeIds currency precision).aggregator.valid = true := h
  have hf := ExecutionGroupAggregator.create_fields h
  refine ⟨.create h, hf.2.2.2.1.symm, fun s x hx => ?_⟩
  have hr : (p.begun intent tradeIds currency precision).group.receipts = .empty := hf.2.2.2.2.1
  rw [hr] at hx
  cases hx

theorem Follows.apply (h : Follows op seen p) (e : TradeSettlement) (rev : UInt64) :
    Follows op (seen ++ [e]) (p.apply e rev).1 ∧
      ((p.apply e rev).2 = .applied → (p.apply e rev).1.group = (p.group.apply e).1 ∧
        p.group.check e = .applied) := by
  have hold : Follows op (seen ++ [e]) p :=
    ⟨h.inv, h.outcome, fun s x hx => by simp [h.receipts s x hx]⟩
  rcases step_cases p (.apply e rev) with ⟨ha, happ⟩ | ⟨hn, he⟩
  · simp only [step] at ha happ
    generalize (p.apply e rev).1 = p' at happ
    cases happ with
    | apply ready new busy waiting member =>
        have hrec : (p.group.apply e).1 = p.group.record e := by
          rw [ExecutionGroupAggregator.apply_fst, if_pos member]
        refine ⟨⟨?_, ?_, fun s x hx => ?_⟩, fun _ => ⟨by rw [hrec, advanced_group], member⟩⟩
        · rw [advanced_group]
          exact h.inv.record member
        · rw [advanced_outcome, advanced_group]
        · rw [advanced_group, ← hrec, ExecutionGroupAggregator.find?_receipts_apply] at hx
          split at hx
          · simp [Option.some.inj hx]
          · simp [h.receipts s x hx]
  · simp only [step] at hn he
    rw [he]
    exact ⟨hold, fun ha => absurd ha hn⟩

theorem Follows.applyAll (h : Follows op seen p) (es : List (TradeSettlement × UInt64)) :
    Follows op (seen ++ es.map Prod.fst) (p.applyAll es) := by
  induction es generalizing p seen with
  | nil => simpa using h
  | cons e es ih => simpa using ih (h.apply e.1 e.2).1

/-- Events that were all applied have receipts in the group. -/
theorem Follows.all_receipts (h : Follows op seen p) {es : List (TradeSettlement × UInt64)}
    (hall : p.AllApplied es)
    (hseen : ∀ e ∈ seen, p.group.receipts.find? e.settlementId = some e) :
    ∀ e ∈ seen ++ es.map Prod.fst,
      (p.applyAll es).group.receipts.find? e.settlementId = some e := by
  induction es generalizing p seen with
  | nil => simpa using hseen
  | cons e es ih =>
      obtain ⟨ha, hrest⟩ := hall
      obtain ⟨hf, hgroup⟩ := h.apply e.1 e.2
      obtain ⟨hg, hc⟩ := hgroup ha
      have := ih hf hrest (fun x hx => ?_)
      · simpa using this
      · rw [hg]
        rcases List.mem_append.mp hx with hx | hx
        · exact ExecutionGroupAggregator.receipts_mono _ _ (hseen x hx)
        · rw [List.mem_singleton] at hx
          rw [hx, ExecutionGroupAggregator.find?_receipts_apply, if_pos ⟨hc, rfl⟩]

theorem Follows.outcome_exact (h : Follows op seen p) :
    p.state.outcome = exactOutcome op.group.expectedMembers op.zero
      (terminals p.group.members.values)
      (ExecutionGroupAggregator.anyUnresolved p.group.members.values) := by
  rw [h.outcome, h.inv.outcome_exact]

theorem Follows.length_seen (h : Follows op seen p) (hk : (seen.map (·.tradeId)).Perm op.tradeIds) :
    seen.length = op.group.expectedMembers.toNat := by
  have := hk.length_eq
  rw [List.length_map] at this
  rw [this, h.inv.size]

/-- When a series has become final on events that name every member once, all of them were applied. -/
theorem Follows.final (h : Follows op seen p) (hf : p.state.outcome.final = true)
    (hk : (seen.map (·.tradeId)).Perm op.tradeIds) :
    (terminals p.group.members.values).Perm seen := by
  rw [h.outcome_exact] at hf
  have hlen := (exactOutcome_final hf).1
  refine List.Subperm.perm_of_length_le (List.subperm_of_subset h.inv.terminals_nodup ?_) ?_
  · intro e he
    exact h.receipts _ _ (h.inv.mem_terminals.mp he).2
  · rw [hlen, h.length_seen hk]

end SeriesProgression

/-! ## Evidence from the operation -/

namespace RiskSettlementEvidence

open SeriesProgression (Follows)

variable {r : RiskReservation} {tradeIds : List UInt64} {p : SeriesProgression}
  {seen : List TradeSettlement}

/-- Accepted evidence carries the exact outcome of its settlements. -/
theorem validFor_outcome (tradeIds : List UInt64) {evidence : RiskSettlementEvidence}
    (h : evidence.validFor r = true) :
    evidence.Claims r ∧ (∀ e ∈ evidence.settlements, e.terminal = true) ∧
      evidence.outcome = exactOutcome r.executionGroup.expectedMembers
        (operation r tradeIds).zero evidence.settlements false := by
  obtain ⟨hc, ids, hcol, hv, a, hrep, ho⟩ := validFor_iff.mp h
  have hcoll := collect_eq_some.2 _ hcol
  obtain ⟨rfl, hall⟩ := replay_eq hrep
  have hinv := (ExecutionGroupAggregator.Inv.create hv).deliver evidence.settlements
  have ht : ∀ e ∈ evidence.settlements, e.terminal = true := fun e he => (hcoll.event e he).2.1
  have hperm := ExecutionGroupAggregator.terminals_perm hinv
    (List.Nodup.of_map _ hcoll.settlements) ht
    (fun s x hx => by
      rcases ExecutionGroupAggregator.receipt_of_deliver hx with hx | hx
      · rw [(ExecutionGroupAggregator.create_fields hv).2.2.2.2.1] at hx
        cases hx
      · exact hx) hall
  exact ⟨hc, ht, ho.symm.trans (hinv.outcome_of_perm hperm hc.length)⟩

/-- The settlements of an operation that became final are accepted in every order, with its outcome. -/
theorem validFor_of_final (h : Follows (operation r tradeIds) seen p)
    (hvalid : (operation r tradeIds).aggregator.valid = true)
    (hk : (seen.map (·.tradeId)).Perm tradeIds) (hf : p.state.outcome.final = true)
    {es : List TradeSettlement} (hes : es.Perm seen) :
    RiskSettlementEvidence.validFor
      ⟨r.reservationId, r.intentId, r.executionGroup, p.state.outcome, es⟩ r = true := by
  have hperm := h.final hf hk
  have hmem : ∀ e ∈ es, (operation r tradeIds).Admits e ∧ e.terminal = true ∧
      p.group.receipts.find? e.settlementId = some e := by
    intro e he
    have := h.inv.mem_terminals.mp (hperm.mem_iff.mpr (hes.mem_iff.mp he))
    exact ⟨(h.inv.receipt this.2).2.1, this⟩
  have hnd : es.Nodup := (hes.nodup_iff.mpr (hperm.nodup_iff.mp h.inv.terminals_nodup))
  have htrades : (es.map (·.tradeId)).Perm tradeIds := (hes.map _).trans hk
  have hndk : (es.map (·.tradeId)).Nodup := by
    rw [htrades.nodup_iff]
    exact ((ExecutionGroupAggregator.create_valid_iff _).mp hvalid).2.2.2.2.2.1
  have hnds : (es.map (·.settlementId)).Nodup := by
    refine List.Nodup.map_on (fun e he e' he' hs => ?_) hnd
    have h1 := (hmem e he).2.2
    rw [hs, (hmem e' he').2.2] at h1
    exact (Option.some.inj h1).symm
  have hcoll : Collectable r.intentId r.executionGroup.groupId .empty .empty es :=
    ⟨fun e he => ⟨(hmem e he).1.valid, (hmem e he).2.1, (hmem e he).1.intentId, (hmem e he).1.group⟩,
      hnds, fun _ _ => rfl, hndk, fun _ _ => rfl⟩
  obtain ⟨ids, hcol, hids⟩ := collect_eq_some.1 hcoll
  have hids' : ids.keys.Perm tradeIds := by
    refine hids.trans ?_
    simpa [OrderedMap.keys, OrderedMap.empty] using htrades
  have hv : (operation r ids.keys).aggregator.valid = true :=
    (ExecutionGroupAggregator.create_valid_perm (operation r tradeIds) hids').trans hvalid
  have hadm : ∀ e ∈ es, (operation r ids.keys).Admits e := fun e he =>
    ⟨(hmem e he).1.valid, (hmem e he).1.intentId, (hmem e he).1.group,
      hids'.mem_iff.mpr (hmem e he).1.member, (hmem e he).1.money⟩
  have hfresh := ExecutionGroupAggregator.create_fields hv
  have hinv := ExecutionGroupAggregator.Inv.create hv
  have hopen : ∀ e ∈ es, ∀ t, (operation r ids.keys).aggregator.members.find? e.tradeId =
      some (some t) → t.terminal = false := by
    intro e _ t ht
    have := (hinv.member ht).2
    rw [hfresh.2.2.2.2.1] at this
    cases this
  have hrep := replay_complete hinv hadm hnds hndk
    (fun e _ => by rw [hfresh.2.2.2.2.1]; rfl) hopen
  have hdel := hinv.deliver es
  have hout : p.state.outcome = exactOutcome r.executionGroup.expectedMembers
      (operation r tradeIds).zero es false := by
    rw [h.outcome, h.inv.outcome_of_perm hperm (h.length_seen hk)]
    exact exactOutcome_perm hes.symm _ _ _
  have hfin := hf
  rw [hout] at hfin
  obtain ⟨hlen, hready, hterm, hkind, hcomp, hunres⟩ := exactOutcome_final hfin
  refine validFor_iff.mpr ⟨⟨rfl, rfl, rfl, hf, ?_, ?_, ?_, ?_, ?_, hlen⟩, ids, hcol, hv, _, hrep, ?_⟩
  · simp only [hout, hterm]
  · simp only [hout, hunres]
  · simp only [hout, hready]
  · simp only [hout, hkind]
  · simp only [hout, hcomp]
  · have hp := ExecutionGroupAggregator.terminals_perm hdel hnd (fun e he => (hmem e he).2.1)
      (fun s x hx => by
        rcases ExecutionGroupAggregator.receipt_of_deliver hx with hx | hx
        · rw [hfresh.2.2.2.2.1] at hx
          cases hx
        · exact hx) (replay_eq hrep).2
    exact (hdel.outcome_of_perm hp hlen).trans hout.symm

/-- Evidence with the settlements that an operation has applied carries no outcome but its own. -/
theorem outcome_of_validFor (h : Follows (operation r tradeIds) seen p)
    (hk : (seen.map (·.tradeId)).Perm tradeIds)
    (hall : ∀ e ∈ seen, p.group.receipts.find? e.settlementId = some e)
    {es : List TradeSettlement} (hes : es.Perm seen) {outcome : GroupOutcome}
    (hv : RiskSettlementEvidence.validFor
      ⟨r.reservationId, r.intentId, r.executionGroup, outcome, es⟩ r = true) :
    outcome = p.state.outcome := by
  obtain ⟨hc, ht, ho⟩ := validFor_outcome tradeIds hv
  have hnd : seen.Nodup := by
    have hcoll := collect_eq_some.2 _ (validFor_iff.mp hv).2.choose_spec.1
    exact hes.nodup_iff.mp (List.Nodup.of_map _ hcoll.settlements)
  have hperm := ExecutionGroupAggregator.terminals_perm h.inv hnd
    (fun e he => ht e (hes.mem_iff.mpr he)) h.receipts hall
  rw [h.outcome, h.inv.outcome_of_perm hperm (h.length_seen hk)]
  exact ho.trans (exactOutcome_perm hes _ _ _)

end RiskSettlementEvidence

end OptionX.TradingSystem
