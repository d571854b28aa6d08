import OptionX.TradingSystem.Lemmas.Group

/-!
# Every delivery of a settled group ends alike

A group is settled by a set of events with one terminal event for each member. Whatever the order and the
repetitions in which the events arrive, the terminal ones end up stored and nothing else does.
-/

namespace OptionX.TradingSystem

open Lib (OrderedMap)

/-- A finite set of events of the group, with distinct settlement ids and exactly one terminal event for
each member; the other events are `unknown`. -/
structure Operation.SettledBy (op : Operation) (es : Finset TradeSettlement) : Prop where
  admits : ∀ e ∈ es, op.Admits e
  distinct : ∀ e ∈ es, ∀ e' ∈ es, e.settlementId = e'.settlementId → e = e'
  terminal : ∀ k ∈ op.tradeIds, ∃! e, e ∈ es ∧ e.tradeId = k ∧ e.terminal = true

/-- The outcome that a set of settling events stands for, from the mathematical sum of its money. -/
def Operation.settledOutcome (op : Operation) (es : Finset TradeSettlement) : GroupOutcome :=
  let sum := ∑ e ∈ es, e.money
  let ended : GroupOutcome :=
    { allMembersTerminal := true, completedMembers := op.group.expectedMembers }
  if ∃ e ∈ es, e.netProfit.isSome then
    if -2 ^ 63 ≤ sum ∧ sum ≤ 2 ^ 63 - 1 then
      { ended with
        final := true
        aggregationStatus := .ready
        kind := some (if 0 < sum then .win else if sum < 0 then .loss else .draw)
        netProfit := some ⟨Int64.ofInt sum, op.precision, op.currency⟩ }
    else { ended with aggregationStatus := .numericOverflow }
  else
    { ended with
      final := true
      aggregationStatus := .ready
      kind := some (if ∃ e ∈ es, e.kind = .rejected then .rejected else .cancelled) }

theorem TradeSettlement.money_of_not_terminal {e : TradeSettlement} (h : e.valid = true)
    (ht : e.terminal = false) : e.netProfit = none := by
  have hm := valid_money h
  simp only [terminal, bne_eq_false_iff_eq] at ht
  rw [isTradingResult, ht] at hm
  exact Option.isSome_eq_false_iff.mp hm |> Option.isNone_iff_eq_none.mp

section

variable {op : Operation} {es : Finset TradeSettlement} {a : ExecutionGroupAggregator}

open ExecutionGroupAggregator

/-- One delivery: only events of the set get a receipt, and a terminal event has one afterwards. -/
theorem Operation.SettledBy.apply (hes : op.SettledBy es) (h : Inv op a)
    (hr : ∀ s x, a.receipts.find? s = some x → x ∈ es) {e : TradeSettlement} (he : e ∈ es) :
    (∀ s x, (a.apply e).1.receipts.find? s = some x → x ∈ es) ∧
      (e.terminal = true → (a.apply e).1.receipts.find? e.settlementId = some e) := by
  constructor
  · intro s x hx
    rw [find?_receipts_apply] at hx
    split at hx
    · rw [Option.some.injEq] at hx
      exact hx ▸ he
    · exact hr s x hx
  · intro ht
    cases hf : a.receipts.find? e.settlementId with
    | some x =>
        have hx : x = e := hes.distinct x (hr _ _ hf) e he (h.receipt hf).1
        exact receipts_mono a e (hx ▸ hf)
    | none =>
        have hc : a.check e = .applied := by
          refine h.check_eq_applied.mpr ⟨hf, hes.admits e he, fun t hm => ?_⟩
          -- a terminal event stored for the member would be `e` itself
          by_contra htt
          rw [Bool.not_eq_false] at htt
          obtain ⟨hk, hrt⟩ := h.member hm
          obtain ⟨u, _, hu⟩ := hes.terminal _ (hes.admits e he).member
          have h1 := hu t ⟨hr _ _ hrt, hk, htt⟩
          have h2 := hu e ⟨he, rfl, ht⟩
          rw [h1, ← h2, hf] at hrt
          cases hrt
        simp [find?_receipts_apply, hc]

theorem Operation.SettledBy.deliver (hes : op.SettledBy es) (hop : op.aggregator.valid = true)
    {ds : List TradeSettlement} (hd : ∀ e ∈ ds, e ∈ es) :
    (∀ s x, (op.aggregator.deliver ds).receipts.find? s = some x → x ∈ es) ∧
      ∀ e ∈ ds, e.terminal = true →
        (op.aggregator.deliver ds).receipts.find? e.settlementId = some e := by
  induction ds using List.reverseRecOn with
  | nil =>
      refine ⟨fun s x hx => ?_, by simp⟩
      rw [deliver_nil, (create_fields hop).2.2.2.2.1] at hx
      cases hx
  | append_singleton ds e ih =>
      obtain ⟨hr, ht⟩ := ih (fun x hx => hd x (by simp [hx]))
      obtain ⟨hr', ht'⟩ := hes.apply ((Inv.create hop).deliver ds) hr (hd e (by simp))
      rw [deliver_append]
      refine ⟨hr', fun x hx hxt => ?_⟩
      rcases List.mem_append.mp hx with hx | hx
      · exact receipts_mono _ e (ht x hx hxt)
      · obtain rfl := List.mem_singleton.mp hx
        exact ht' hxt

/-- After every event of the set has arrived, the members hold exactly its terminal events. -/
theorem Operation.SettledBy.terminals_perm (hes : op.SettledBy es) (hop : op.aggregator.valid = true)
    {ds : List TradeSettlement} (hd : ∀ e, e ∈ ds ↔ e ∈ es) :
    (terminals (op.aggregator.deliver ds).members.values).Perm
      (es.filter (fun e => e.terminal = true)).toList := by
  have h := (Inv.create hop).deliver ds
  obtain ⟨hr, ht⟩ := hes.deliver hop (fun e he => (hd e).mp he)
  refine (List.perm_ext_iff_of_nodup h.terminals_nodup (Finset.nodup_toList _)).mpr (fun e => ?_)
  rw [h.mem_terminals, Finset.mem_toList, Finset.mem_filter, and_comm]
  refine and_congr_left (fun hte => ⟨fun he => hr _ _ he, fun he => ht e ((hd e).mpr he) hte⟩)

/-- There is one terminal event for each of the members that the group expects. -/
theorem Operation.SettledBy.length_terminals (hes : op.SettledBy es)
    (hop : op.aggregator.valid = true) :
    (es.filter (fun e => e.terminal = true)).toList.length = op.group.expectedMembers.toNat := by
  obtain ⟨_, _, _, hlen, _, hnd, _⟩ := (create_valid_iff _).mp hop
  have hinj : ∀ e ∈ (es.filter (fun e => e.terminal = true)).toList,
      ∀ e' ∈ (es.filter (fun e => e.terminal = true)).toList, e.tradeId = e'.tradeId → e = e' := by
    intro e he e' he' hk
    simp only [Finset.mem_toList, Finset.mem_filter] at he he'
    obtain ⟨u, _, hu⟩ := hes.terminal _ (hes.admits e he.1).member
    rw [hu e ⟨he.1, rfl, he.2⟩, hu e' ⟨he'.1, hk.symm, he'.2⟩]
  have hperm : ((es.filter (fun e => e.terminal = true)).toList.map (·.tradeId)).Perm op.tradeIds := by
    refine (List.perm_ext_iff_of_nodup
      (List.Nodup.map_on hinj (Finset.nodup_toList _)) hnd).mpr (fun k => ?_)
    simp only [List.mem_map, Finset.mem_toList, Finset.mem_filter]
    constructor
    · rintro ⟨e, he, rfl⟩
      exact (hes.admits e he.1).member
    · intro hk
      obtain ⟨e, ⟨he, hke, ht⟩, _⟩ := hes.terminal k hk
      exact ⟨e, ⟨he, ht⟩, hke⟩
  rw [← hlen, ← hperm.length_eq, List.length_map]

/-- The exact outcome of the terminal events is the one that the whole set stands for: the `unknown`
events carry no money. -/
theorem Operation.SettledBy.exactOutcome_eq (hes : op.SettledBy es)
    (hop : op.aggregator.valid = true) :
    exactOutcome op.group.expectedMembers op.zero
      (es.filter (fun e => e.terminal = true)).toList false = op.settledOutcome es := by
  have hlen := hes.length_terminals hop
  have hsum : netOf (es.filter (fun e => e.terminal = true)).toList = ∑ e ∈ es, e.money := by
    rw [netOf, Finset.sum_map_toList]
    refine Finset.sum_subset (Finset.filter_subset _ _) (fun e he hn => ?_)
    have ht : e.terminal = false := by simpa [he] using hn
    simp [TradeSettlement.money,
      TradeSettlement.money_of_not_terminal (hes.admits e he).valid ht]
  have hexec : (es.filter (fun e => e.terminal = true)).toList.any (·.netProfit.isSome) =
      decide (∃ e ∈ es, e.netProfit.isSome) := by
    rw [Bool.eq_iff_iff, List.any_eq_true, decide_eq_true_eq]
    simp only [Finset.mem_toList, Finset.mem_filter]
    constructor
    · rintro ⟨e, ⟨he, _⟩, hp⟩
      exact ⟨e, he, hp⟩
    · rintro ⟨e, he, hp⟩
      refine ⟨e, ⟨he, ?_⟩, hp⟩
      by_contra ht
      rw [TradeSettlement.money_of_not_terminal (hes.admits e he).valid
        (by simpa using ht)] at hp
      cases hp
  have hrej : (es.filter (fun e => e.terminal = true)).toList.any (·.kind == .rejected) =
      decide (∃ e ∈ es, e.kind = .rejected) := by
    rw [Bool.eq_iff_iff, List.any_eq_true, decide_eq_true_eq]
    simp only [Finset.mem_toList, Finset.mem_filter, beq_iff_eq]
    constructor
    · rintro ⟨e, ⟨he, _⟩, hk⟩
      exact ⟨e, he, hk⟩
    · rintro ⟨e, he, hk⟩
      exact ⟨e, ⟨he, by simp [TradeSettlement.terminal, hk]⟩, hk⟩
  have hcount : UInt32.ofNat op.group.expectedMembers.toNat = op.group.expectedMembers :=
    UInt32.ofNat_toNat
  have hrange : (decide (-2 ^ 63 ≤ ∑ e ∈ es, e.money) && decide (∑ e ∈ es, e.money < 2 ^ 63)) =
      decide (-2 ^ 63 ≤ ∑ e ∈ es, e.money ∧ ∑ e ∈ es, e.money ≤ 2 ^ 63 - 1) := by
    rw [Bool.eq_iff_iff, Bool.and_eq_true, decide_eq_true_eq, decide_eq_true_eq, decide_eq_true_eq]
    omega
  simp only [exactOutcome, exactKind, hlen, hsum, hexec, hrej, hrange, hcount, beq_self_eq_true,
    if_true, settledOutcome, Operation.zero, Bool.and_eq_true, decide_eq_true_eq,
    Bool.not_eq_true', decide_eq_false_iff_not]
  by_cases hx : ∃ e ∈ es, e.netProfit.isSome
  · by_cases hin : -2 ^ 63 ≤ ∑ e ∈ es, e.money ∧ ∑ e ∈ es, e.money ≤ 2 ^ 63 - 1
    · simp only [hx, hin, and_self, not_true, and_false, if_false, if_true]
    · simp only [hx, hin, not_false_eq_true, and_self, if_true, if_false]
  · simp only [hx, false_and, if_false]

end

end OptionX.TradingSystem
