import OptionX.TradingSystem.Lemmas.Aggregate

/-!
# The life of one execution group

What the constructor accepts, the invariant that every applied event keeps, and what a sequence of
deliveries leaves behind.
-/

namespace OptionX.TradingSystem

open Lib (OrderedMap)

/-- What fixes an aggregator: the arguments of its constructor. -/
structure Operation where
  intentId : IntentId
  group : ExecutionGroupIdentity
  tradeIds : List UInt64
  currency : CurrencyType
  precision : UInt8

namespace Operation

def zero (op : Operation) : MoneyAmount := ⟨0, op.precision, op.currency⟩

def aggregator (op : Operation) : ExecutionGroupAggregator :=
  .create op.intentId op.group op.tradeIds op.currency op.precision

/-- A valid settlement event of the group: it names the operation and one of its members, and its money
is in the group's currency and precision. -/
structure Admits (op : Operation) (e : TradeSettlement) : Prop where
  valid : e.valid = true
  intentId : e.intentId = op.intentId
  group : e.executionGroupId = op.group.groupId
  member : e.tradeId ∈ op.tradeIds
  money : ∀ m, e.netProfit = some m → m.currency = op.currency ∧ m.precision = op.precision

end Operation

namespace ExecutionGroupAggregator

/-! ## The constructor -/

theorem enroll_fields (a : ExecutionGroupAggregator) (ids : List UInt64) :
    (a.enroll ids).intentId = a.intentId ∧ (a.enroll ids).group = a.group ∧
      (a.enroll ids).zero = a.zero ∧ (a.enroll ids).outcome = a.outcome ∧
      (a.enroll ids).receipts = a.receipts := by
  induction ids generalizing a with
  | nil => exact ⟨rfl, rfl, rfl, rfl, rfl⟩
  | cons k ids ih =>
      simp only [enroll]
      split
      · exact ⟨rfl, rfl, rfl, rfl, rfl⟩
      · exact ih _

/-- The loop accepts exactly the rosters of distinct, non-zero ids that are not enrolled yet. -/
theorem enroll_valid {a : ExecutionGroupAggregator} (ha : a.valid = false) (ids : List UInt64) :
    (a.enroll ids).valid = true ↔
      ids.Nodup ∧ ∀ k ∈ ids, k ≠ 0 ∧ a.members.find? k = none := by
  induction ids generalizing a with
  | nil => simp [enroll]
  | cons k ids ih =>
      simp only [enroll]
      split
      · rename_i hk
        rw [Bool.or_eq_true, beq_iff_eq] at hk
        simp only [ha, Bool.false_eq_true, false_iff]
        rintro ⟨_, h⟩
        obtain ⟨h0, hn⟩ := h k (by simp)
        rcases hk with hk | hk
        · exact h0 hk
        · obtain ⟨v, hv⟩ := OrderedMap.contains_iff.mp hk
          rw [hn] at hv
          cases hv
      · rename_i hk
        rw [Bool.or_eq_true, beq_iff_eq, not_or, Bool.not_eq_true, OrderedMap.contains_eq_false] at hk
        rw [ih (a := { a with members := a.members.emplace k none }) ha]
        simp only [OrderedMap.find?_emplace hk.2, List.nodup_cons, List.mem_cons, forall_eq_or_imp]
        constructor
        · rintro ⟨hnd, h⟩
          refine ⟨⟨fun hmem => ?_, hnd⟩, ⟨hk.1, hk.2⟩, fun x hx => ?_⟩
          · have := (h k hmem).2
            simp at this
          · obtain ⟨h0, hx'⟩ := h x hx
            split at hx'
            · cases hx'
            · exact ⟨h0, hx'⟩
        · rintro ⟨⟨hnm, hnd⟩, _, h⟩
          refine ⟨hnd, fun x hx => ?_⟩
          have hne : x ≠ k := fun he => hnm (he ▸ hx)
          rw [if_neg hne]
          exact h x hx

/-- An accepted roster is enrolled completely and nothing has been reported for it. -/
theorem enroll_entries {a : ExecutionGroupAggregator} (ha : a.valid = false) {ids : List UInt64}
    (h : (a.enroll ids).valid = true) :
    (a.enroll ids).members.entries.Perm (ids.map (fun k => (k, none)) ++ a.members.entries) := by
  induction ids generalizing a with
  | nil => simp [enroll]
  | cons k ids ih =>
      simp only [enroll] at h ⊢
      split at h
      · rw [ha] at h
        cases h
      · rename_i hk
        have hn := hk
        rw [Bool.or_eq_true, not_or, Bool.not_eq_true, Bool.not_eq_true,
          OrderedMap.contains_eq_false] at hn
        rw [if_neg hk]
        refine (ih (a := { a with members := a.members.emplace k none }) ha h).trans ?_
        simp only [List.map_cons, List.cons_append]
        refine (List.Perm.append_left _ (OrderedMap.emplace_perm hn.2 none)).trans ?_
        exact List.perm_middle

theorem create_valid_iff (op : Operation) :
    op.aggregator.valid = true ↔
      op.intentId ≠ 0 ∧ op.zero.validMetadata = true ∧ op.tradeIds ≠ [] ∧
        op.tradeIds.length = op.group.expectedMembers.toNat ∧
        (1 < op.tradeIds.length → op.group.groupId ≠ 0) ∧ op.tradeIds.Nodup ∧ 0 ∉ op.tradeIds := by
  simp only [Operation.aggregator, create, Operation.zero]
  split
  · rename_i h
    simp only [Bool.false_eq_true, false_iff]
    rintro ⟨h0, hm, hne, hlen, hg, _, _⟩
    have hm' : (⟨0, op.precision, op.currency⟩ : MoneyAmount).validMetadata = true := hm
    simp only [hm', Bool.not_true, Bool.or_false, Bool.or_eq_true, Bool.and_eq_true, beq_iff_eq, h0,
      List.isEmpty_iff, hne, bne_iff_ne, ne_eq, hlen, decide_eq_true_eq, false_or, not_true] at h
    exact hg (by omega) h.2
  · rename_i h
    simp only [Bool.or_eq_true, Bool.and_eq_true, beq_iff_eq, List.isEmpty_iff, bne_iff_ne, ne_eq,
      decide_eq_true_eq, not_or, not_and, Bool.not_eq_true', Bool.not_eq_false, not_not] at h
    obtain ⟨⟨⟨⟨h0, hm⟩, hne⟩, hlen⟩, hg⟩ := h
    rw [enroll_valid rfl]
    simp only [OrderedMap.find?_empty, and_true]
    constructor
    · rintro ⟨hnd, hz⟩
      exact ⟨h0, hm, hne, hlen, hg, hnd, fun hmem => hz 0 hmem rfl⟩
    · rintro ⟨_, _, _, _, _, hnd, hz⟩
      exact ⟨hnd, fun k hk he => hz (he ▸ hk)⟩

/-- Whether a roster is accepted does not depend on its order. -/
theorem create_valid_perm (op : Operation) {ids : List UInt64} (h : ids.Perm op.tradeIds) :
    { op with tradeIds := ids }.aggregator.valid = op.aggregator.valid := by
  rw [Bool.eq_iff_iff, create_valid_iff, create_valid_iff]
  have hnil : ids = [] ↔ op.tradeIds = [] := by
    rw [← List.length_eq_zero_iff, h.length_eq, List.length_eq_zero_iff]
  simp only [Operation.zero, h.length_eq, h.nodup_iff, h.mem_iff, ne_eq, hnil]

/-! ## The invariant -/

/-- What holds of an aggregator that was built for `op` and has had events applied to it. -/
structure Inv (op : Operation) (a : ExecutionGroupAggregator) : Prop where
  valid : a.valid = true
  intentId : a.intentId = op.intentId
  group : a.group = op.group
  zero : a.zero = op.zero
  roster : a.members.keys.Perm op.tradeIds
  size : op.tradeIds.length = op.group.expectedMembers.toNat
  outcome : a.outcome = a.aggregate
  member : ∀ {k e}, a.members.find? k = some (some e) →
    e.tradeId = k ∧ a.receipts.find? e.settlementId = some e
  receipt : ∀ {s e}, a.receipts.find? s = some e → e.settlementId = s ∧ op.Admits e ∧
    (e.terminal = true → a.members.find? e.tradeId = some (some e))

section Invariant

variable {op : Operation} {a : ExecutionGroupAggregator} {e : TradeSettlement}

theorem Inv.mem_roster (h : Inv op a) {k : UInt64} :
    k ∈ op.tradeIds ↔ ∃ v, a.members.find? k = some v := by
  rw [← h.roster.mem_iff, OrderedMap.mem_keys]

theorem Inv.length_values (h : Inv op a) :
    a.members.values.length = op.group.expectedMembers.toNat := by
  have := h.roster.length_eq
  simp only [OrderedMap.keys, List.length_map] at this
  simp only [OrderedMap.values, List.length_map, this, h.size]

theorem Inv.outcome_exact (h : Inv op a) :
    a.outcome = exactOutcome op.group.expectedMembers op.zero (terminals a.members.values)
      (anyUnresolved a.members.values) := by
  rw [h.outcome, aggregate_exact, h.group, h.zero]
  rw [h.length_values]
  exact op.group.expectedMembers.toNat_lt

theorem create_fields {op : Operation} (h : op.aggregator.valid = true) :
    op.aggregator.intentId = op.intentId ∧ op.aggregator.group = op.group ∧
      op.aggregator.zero = op.zero ∧ op.aggregator.outcome = {} ∧ op.aggregator.receipts = .empty ∧
      op.aggregator.members.entries.Perm (op.tradeIds.map (fun k => (k, none))) := by
  simp only [Operation.aggregator, create] at h ⊢
  split at h
  · cases h
  · rename_i hc
    rw [if_neg hc]
    obtain ⟨hi, hg, hz, ho, hr⟩ := enroll_fields
      { intentId := op.intentId, group := op.group, zero := ⟨0, op.precision, op.currency⟩ } op.tradeIds
    have he := enroll_entries rfl h
    exact ⟨hi, hg, hz, ho, hr, he.trans (by simp [OrderedMap.empty])⟩

/-- An accepted operation starts with the invariant. -/
theorem Inv.create (h : op.aggregator.valid = true) : Inv op op.aggregator := by
  obtain ⟨_, _, hne, hlen, _, _, _⟩ := (create_valid_iff _).mp h
  obtain ⟨hi, hg, hz, ho, hr, he⟩ := create_fields h
  have hnone : ∀ v ∈ op.aggregator.members.values, v = none := by
    intro v hv
    obtain ⟨x, hx, rfl⟩ := List.mem_map.mp hv
    obtain ⟨k, _, rfl⟩ := List.mem_map.mp (he.mem_iff.mp hx)
    rfl
  have hkeys : op.aggregator.members.keys.Perm op.tradeIds := by
    have := he.map Prod.fst
    simpa [OrderedMap.keys, Function.comp_def] using this
  have ht : terminals op.aggregator.members.values = [] := by
    refine List.filterMap_eq_nil_iff.mpr (fun v hv => ?_)
    rw [hnone v hv]
    rfl
  have hu : anyUnresolved op.aggregator.members.values = false := by
    rw [anyUnresolved, List.any_eq_false]
    intro v hv
    rw [hnone v hv]
    simp
  have hsize : op.aggregator.members.values.length = op.group.expectedMembers.toNat := by
    have := hkeys.length_eq
    simp only [OrderedMap.keys, List.length_map] at this
    simp only [OrderedMap.values, List.length_map, this, hlen]
  have hpos : (0 == op.group.expectedMembers.toNat) = false := by
    rw [beq_eq_false_iff_ne, ← hlen]
    exact fun h0 => hne (List.length_eq_zero_iff.mp h0.symm)
  refine ⟨h, hi, hg, hz, hkeys, hlen, ?_, fun {k e} hk => ?_, fun {s e} hs => ?_⟩
  · rw [ho, aggregate_exact (by rw [hsize]; exact op.group.expectedMembers.toNat_lt), ht, hu, hg]
    simp [exactOutcome, hpos]
  · have := hnone _ (OrderedMap.mem_values.mpr ⟨k, hk⟩)
    cases this
  · rw [hr] at hs
    cases hs

/-- The checks of `apply` accept exactly the new events of the group whose member has not ended. -/
theorem Inv.check_eq_applied (h : Inv op a) :
    a.check e = .applied ↔
      a.receipts.find? e.settlementId = none ∧ op.Admits e ∧
        ∀ t, a.members.find? e.tradeId = some (some t) → t.terminal = false := by
  unfold check
  cases hr : a.receipts.find? e.settlementId with
  | some r =>
      simp only [reduceCtorEq, false_and, iff_false]
      split <;> simp
  | none =>
      simp only [h.valid, Bool.not_true, Bool.false_eq_true, if_false, true_and]
      by_cases hv : e.valid = true
      swap
      · simp only [hv, Bool.not_false, if_true, reduceCtorEq, false_iff]
        exact fun hc => hv hc.1.valid
      simp only [hv, Bool.not_true, Bool.false_eq_true, if_false]
      by_cases hi : e.intentId = op.intentId ∧ e.executionGroupId = op.group.groupId
      swap
      · rw [if_pos (by rw [h.intentId, h.group]; simpa [not_and_or] using not_and_or.mp hi)]
        simp only [reduceCtorEq, false_iff]
        exact fun hc => hi ⟨hc.1.intentId, hc.1.group⟩
      rw [if_neg (by simp [h.intentId, h.group, hi])]
      cases hm : a.members.find? e.tradeId with
      | none =>
          simp only [reduceCtorEq, false_iff]
          rintro ⟨hc, _⟩
          obtain ⟨v, hv⟩ := h.mem_roster.mp hc.member
          rw [hm] at hv
          cases hv
      | some v =>
          have hmem : e.tradeId ∈ op.tradeIds := h.mem_roster.mpr ⟨v, hm⟩
          have hany : v.any (·.terminal) = true ↔ ¬ ∀ t, v = some t → t.terminal = false := by
            cases v with
            | none => simp
            | some t => simp
          simp only [Option.some.injEq]
          by_cases ht : v.any (·.terminal) = true
          · rw [if_pos ht]
            simp only [reduceCtorEq, false_iff]
            exact fun hc => hany.mp ht hc.2
          · rw [if_neg ht]
            rw [hany, not_not] at ht
            cases hp : e.netProfit with
            | none =>
                exact ⟨fun _ => ⟨⟨hv, hi.1, hi.2, hmem, by simp [hp]⟩, ht⟩, fun _ => rfl⟩
            | some m =>
                simp only [h.zero, Operation.zero]
                by_cases hc : m.currency = op.currency
                swap
                · rw [if_pos (by simpa using hc)]
                  simp only [reduceCtorEq, false_iff]
                  exact fun h' => hc (h'.1.money m hp).1
                by_cases hpr : m.precision = op.precision
                swap
                · rw [if_neg (by simp [hc]), if_pos (by simpa using hpr)]
                  simp only [reduceCtorEq, false_iff]
                  exact fun h' => hpr (h'.1.money m hp).2
                rw [if_neg (by simp [hc]), if_neg (by simp [hpr])]
                refine ⟨fun _ => ⟨⟨hv, hi.1, hi.2, hmem, fun m' hm' => ?_⟩, ht⟩, fun _ => rfl⟩
                rw [hp, Option.some.injEq] at hm'
                exact hm' ▸ ⟨hc, hpr⟩

/-- Recording an accepted event keeps the invariant. -/
theorem Inv.record (h : Inv op a) (hc : a.check e = .applied) : Inv op (a.record e) := by
  obtain ⟨hr, hadm, hopen⟩ := h.check_eq_applied.mp hc
  obtain ⟨v, hv⟩ := h.mem_roster.mp hadm.member
  have hm : ∀ k, (a.members.set e.tradeId (some e)).find? k =
      if k = e.tradeId then some (some e) else a.members.find? k := OrderedMap.find?_set hv _
  have hs : ∀ s, (a.receipts.emplace e.settlementId e).find? s =
      if s = e.settlementId then some e else a.receipts.find? s := OrderedMap.find?_emplace hr _
  refine ⟨h.valid, h.intentId, h.group, h.zero, ?_, h.size, rfl, fun {k x} hk => ?_,
    fun {s x} hsx => ?_⟩
  · simpa [ExecutionGroupAggregator.record] using h.roster
  · simp only [ExecutionGroupAggregator.record, hm] at hk
    simp only [ExecutionGroupAggregator.record, hs]
    split at hk
    · rename_i hke
      simp only [Option.some.injEq] at hk
      subst hk
      exact ⟨hke.symm, by simp⟩
    · obtain ⟨hx, hrx⟩ := h.member hk
      have hne : x.settlementId ≠ e.settlementId := by
        intro he
        rw [he, hr] at hrx
        cases hrx
      exact ⟨hx, by rw [if_neg hne]; exact hrx⟩
  · simp only [ExecutionGroupAggregator.record, hs] at hsx
    simp only [ExecutionGroupAggregator.record, hm]
    split at hsx
    · rename_i hse
      simp only [Option.some.injEq] at hsx
      subst hsx
      exact ⟨hse.symm, hadm, fun _ => by simp⟩
    · obtain ⟨hx, hadmx, hterm⟩ := h.receipt hsx
      refine ⟨hx, hadmx, fun ht => ?_⟩
      -- the member of a terminal event is closed, so the new event names another member
      have hne : x.tradeId ≠ e.tradeId := by
        intro he
        have := hopen x (he ▸ hterm ht)
        rw [ht] at this
        cases this
      rw [if_neg hne]
      exact hterm ht

theorem Inv.apply (h : Inv op a) (e : TradeSettlement) : Inv op (a.apply e).1 := by
  rw [apply_fst]
  split
  · exact h.record ‹_›
  · exact h

end Invariant

/-! ## Deliveries -/

/-- Delivers events one after the other, whatever the answers. -/
def deliver (a : ExecutionGroupAggregator) (es : List TradeSettlement) : ExecutionGroupAggregator :=
  es.foldl (fun a e => (a.apply e).1) a

@[simp] theorem deliver_nil (a : ExecutionGroupAggregator) : a.deliver [] = a := rfl

@[simp] theorem deliver_append (a : ExecutionGroupAggregator) (es : List TradeSettlement)
    (e : TradeSettlement) : a.deliver (es ++ [e]) = ((a.deliver es).apply e).1 := by
  simp [deliver]

section Deliveries

variable {op : Operation} {a : ExecutionGroupAggregator}

theorem Inv.deliver (h : Inv op a) (es : List TradeSettlement) : Inv op (a.deliver es) := by
  induction es generalizing a with
  | nil => exact h
  | cons e es ih => exact ih (h.apply e)

/-- The receipts after one delivery: the old ones, and the event itself when it was applied. -/
theorem find?_receipts_apply (a : ExecutionGroupAggregator) (e : TradeSettlement) (s : SettlementId) :
    (a.apply e).1.receipts.find? s =
      if a.check e = .applied ∧ s = e.settlementId then some e else a.receipts.find? s := by
  rw [apply_fst]
  split
  · rename_i hc
    have hr : a.receipts.find? e.settlementId = none := by
      unfold check at hc
      split at hc
      · split at hc <;> cases hc
      · assumption
    simp only [record, OrderedMap.find?_emplace hr, hc, true_and]
  · rename_i hc
    simp [hc]

theorem receipts_mono (a : ExecutionGroupAggregator) (e : TradeSettlement) {s : SettlementId}
    {x : TradeSettlement} (h : a.receipts.find? s = some x) :
    (a.apply e).1.receipts.find? s = some x := by
  rw [find?_receipts_apply]
  split
  · rename_i hc
    obtain ⟨hc, rfl⟩ := hc
    unfold check at hc
    rw [h] at hc
    simp only at hc
    split at hc <;> cases hc
  · exact h

/-- What has a receipt after some deliveries had one before or was among them. -/
theorem receipt_of_deliver {es : List TradeSettlement} {s : SettlementId} {x : TradeSettlement}
    (h : (a.deliver es).receipts.find? s = some x) : a.receipts.find? s = some x ∨ x ∈ es := by
  induction es generalizing a with
  | nil => exact Or.inl h
  | cons e es ih =>
      rcases ih (a := (a.apply e).1) h with h | h
      · rw [find?_receipts_apply] at h
        split at h
        · exact Or.inr (by simp_all)
        · exact Or.inl h
      · exact Or.inr (by simp [h])

/-! ## The terminal events of the members -/

theorem terminals_tradeIds (es : List (UInt64 × Option TradeSettlement))
    (h : ∀ k e, (k, some e) ∈ es → e.tradeId = k) :
    ((terminals (es.map Prod.snd)).map (·.tradeId)).Sublist (es.map Prod.fst) := by
  induction es with
  | nil => simp [terminals]
  | cons x es ih =>
      have ih := ih (fun k e hk => h k e (by simp [hk]))
      obtain ⟨k, v⟩ := x
      simp only [terminals, List.map_cons, List.filterMap_cons] at ih ⊢
      cases hv : v.filter (·.terminal) with
      | none => exact ih.cons _
      | some e =>
          have hve : v = some e := (Option.filter_eq_some_iff.mp hv).1
          have hk : e.tradeId = k := h k e (by simp [hve])
          simp only [List.map_cons, hk]
          exact ih.cons_cons _

theorem Inv.terminals_sublist (h : Inv op a) :
    ((terminals a.members.values).map (·.tradeId)).Sublist a.members.keys :=
  terminals_tradeIds _ (fun _ _ hk => (h.member (OrderedMap.find?_eq_some.mpr hk)).1)

theorem Inv.terminals_nodup (h : Inv op a) : (terminals a.members.values).Nodup :=
  List.Nodup.of_map _ (h.terminals_sublist.nodup (OrderedMap.keys_nodup _))

theorem Inv.mem_terminals (h : Inv op a) {e : TradeSettlement} :
    e ∈ terminals a.members.values ↔
      e.terminal = true ∧ a.receipts.find? e.settlementId = some e := by
  simp only [terminals, List.mem_filterMap, OrderedMap.mem_values, Option.filter_eq_some_iff]
  constructor
  · rintro ⟨v, ⟨k, hk⟩, rfl, ht⟩
    exact ⟨ht, (h.member hk).2⟩
  · rintro ⟨ht, hr⟩
    exact ⟨some e, ⟨e.tradeId, (h.receipt hr).2.2 ht⟩, rfl, ht⟩

/-- A group all of whose members have ended has nothing unresolved. -/
theorem anyUnresolved_of_complete {vs : List (Option TradeSettlement)}
    (h : (terminals vs).length = vs.length) : anyUnresolved vs = false := by
  induction vs with
  | nil => rfl
  | cons v vs ih =>
      have hle : (terminals vs).length ≤ vs.length := List.length_filterMap_le _ _
      simp only [terminals, List.filterMap_cons, List.length_cons] at h hle
      cases hv : v.filter (·.terminal) with
      | none => simp only [hv] at h; omega
      | some e =>
          obtain ⟨rfl, ht⟩ := Option.filter_eq_some_iff.mp hv
          simp only [hv, List.length_cons, Nat.add_right_cancel_iff] at h
          have := ih h
          simp only [anyUnresolved] at this
          simp [anyUnresolved, ht, this]

/-- When the members' terminal events are `es`, one for each member, the outcome is theirs. -/
theorem Inv.outcome_of_perm (h : Inv op a) {es : List TradeSettlement}
    (hp : (terminals a.members.values).Perm es)
    (hl : es.length = op.group.expectedMembers.toNat) :
    a.outcome = exactOutcome op.group.expectedMembers op.zero es false := by
  rw [h.outcome_exact, anyUnresolved_of_complete, exactOutcome_perm hp]
  rw [hp.length_eq, hl, h.length_values]

end Deliveries

end ExecutionGroupAggregator

end OptionX.TradingSystem
