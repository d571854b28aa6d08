import OptionX.TradingSystem.Lemmas.Accumulator

/-!
# What the aggregate is

The outcome that a group's terminal events have in exact arithmetic, and the proof that `aggregate`
computes it for every group of fewer than `2 ^ 32` members.
-/

namespace OptionX.TradingSystem

open Lib (OrderedMap)

/-! ## The exact outcome -/

/-- The money an event carries, as an integer. -/
def TradeSettlement.money (e : TradeSettlement) : Int :=
  match e.netProfit with
  | some m => m.units.toInt
  | none => 0

def netOf (es : List TradeSettlement) : Int := (es.map TradeSettlement.money).sum

/-- The kind of a group whose members have all ended. -/
def exactKind (es : List TradeSettlement) : OutcomeKind :=
  if es.any (·.netProfit.isSome) then
    if 0 < netOf es then .win else if netOf es < 0 then .loss else .draw
  else if es.any (·.kind == .rejected) then .rejected
  else .cancelled

/-- The outcome of a group from the terminal events of its members, summed over the integers. -/
def exactOutcome (expected : UInt32) (zero : MoneyAmount) (es : List TradeSettlement)
    (unresolved : Bool) : GroupOutcome :=
  let complete := es.length == expected.toNat
  if es.any (·.netProfit.isSome) && !(-2 ^ 63 ≤ netOf es && netOf es < 2 ^ 63) then
    { unresolved, allMembersTerminal := complete, completedMembers := .ofNat es.length,
      aggregationStatus := .numericOverflow }
  else
    { final := complete, unresolved, allMembersTerminal := complete,
      completedMembers := .ofNat es.length
      aggregationStatus := if complete then .ready else .pending
      kind := if complete then some (exactKind es) else none
      netProfit :=
        if es.any (·.netProfit.isSome) then some { zero with units := Int64.ofInt (netOf es) }
        else none }

theorem netOf_append (es es' : List TradeSettlement) : netOf (es ++ es') = netOf es + netOf es' := by
  simp [netOf]

theorem netOf_perm {es es' : List TradeSettlement} (h : es.Perm es') : netOf es = netOf es' :=
  (h.map _).sum_eq

theorem any_perm {es es' : List TradeSettlement} (h : es.Perm es') (p : TradeSettlement → Bool) :
    es.any p = es'.any p := by
  rw [Bool.eq_iff_iff]
  simp [h.mem_iff]

/-- The exact outcome does not depend on the order of the events. -/
theorem exactOutcome_perm {es es' : List TradeSettlement} (h : es.Perm es') (expected : UInt32)
    (zero : MoneyAmount) (unresolved : Bool) :
    exactOutcome expected zero es unresolved = exactOutcome expected zero es' unresolved := by
  simp only [exactOutcome, exactKind, h.length_eq, netOf_perm h, any_perm h]

/-! ## The loop of `aggregate` -/

namespace ExecutionGroupAggregator

/-- The terminal events among the members. -/
def terminals (vs : List (Option TradeSettlement)) : List TradeSettlement :=
  vs.filterMap (fun o => o.filter (·.terminal))

def anyUnresolved (vs : List (Option TradeSettlement)) : Bool :=
  vs.any (fun o => o.any (!·.terminal))

/-- A tally that has seen the terminal events `es`. -/
structure Tally.Counts (t : Tally) (es : List TradeSettlement) (unresolved : Bool) : Prop where
  unresolved : t.unresolved = unresolved
  completed : t.completedMembers.toNat = es.length
  execution : t.hasExecution = es.any (·.netProfit.isSome)
  rejection : t.hasRejection = es.any (·.kind == .rejected)
  value : t.accumulator.value = netOf es
  weight : t.accumulator.weight ≤ 2 ^ 63 * es.length

theorem Tally.counts_nil : ({} : Tally).Counts [] false where
  unresolved := rfl
  completed := rfl
  execution := rfl
  rejection := rfl
  value := rfl
  weight := by simp

theorem Tally.Counts.add_pending {t : Tally} {es u} (h : t.Counts es u) {e : TradeSettlement}
    (he : e.terminal = false) : (t.add (some e)).Counts es true := by
  simp only [Tally.add, he, Bool.not_false, if_true]
  exact ⟨rfl, h.completed, h.execution, h.rejection, h.value, h.weight⟩

theorem Tally.Counts.add_terminal {t : Tally} {es u} (h : t.Counts es u) {e : TradeSettlement}
    (he : e.terminal = true) (hn : es.length + 1 < 2 ^ 32) :
    (t.add (some e)).Counts (es ++ [e]) u := by
  have hc : (t.completedMembers + 1).toNat = es.length + 1 := by
    rw [UInt32.toNat_add, UInt32.toNat_one, h.completed]
    omega
  cases hm : e.netProfit with
  | none =>
      simp only [Tally.add, he, hm, Bool.not_true, Bool.false_eq_true, if_false]
      exact
        { unresolved := h.unresolved
          completed := by simp [hc]
          execution := by simp [h.execution, hm]
          rejection := by simp [h.rejection]
          value := by simp [h.value, netOf, TradeSettlement.money, hm]
          weight := by have := h.weight; simp only [List.length_append, List.length_singleton]; omega }
  | some m =>
      have hw := h.weight
      obtain ⟨hv, hw'⟩ := NetAccumulator.add_spec t.accumulator m.units (by omega)
      simp only [Tally.add, he, hm, Bool.not_true, Bool.false_eq_true, if_false]
      exact
        { unresolved := h.unresolved
          completed := by simp [hc]
          execution := by simp [hm]
          rejection := by simp [h.rejection]
          value := by simp [hv, h.value, netOf, TradeSettlement.money, hm]
          weight := by simp only [List.length_append, List.length_singleton]; omega }

/-- The loop counts the terminal events in the order in which it meets them. -/
theorem Tally.Counts.foldl {t : Tally} {es u} (h : t.Counts es u)
    (vs : List (Option TradeSettlement)) (hn : es.length + vs.length < 2 ^ 32) :
    (vs.foldl Tally.add t).Counts (es ++ terminals vs) (u || anyUnresolved vs) := by
  induction vs generalizing t es u with
  | nil => simpa [terminals, anyUnresolved] using h
  | cons o vs ih =>
      simp only [List.length_cons] at hn
      cases o with
      | none =>
          have := ih h (by omega)
          simpa [terminals, anyUnresolved, Tally.add] using this
      | some e =>
          cases he : e.terminal with
          | false =>
              have := ih (h.add_pending he) (by omega)
              simpa [terminals, anyUnresolved, he] using this
          | true =>
              have := ih (h.add_terminal he (by omega)) (by
                simp only [List.length_append, List.length_singleton]; omega)
              simpa [terminals, anyUnresolved, he, List.filterMap_cons, Option.filter] using this

theorem tally_counts {a : ExecutionGroupAggregator} (h : a.members.values.length < 2 ^ 32) :
    a.tally.Counts (terminals a.members.values) (anyUnresolved a.members.values) := by
  simpa [tally] using Tally.counts_nil.foldl a.members.values (by simpa using h)

/-! ## The result -/

theorem conclude_eq {t : Tally} {es u} (h : t.Counts es u) (hn : es.length < 2 ^ 32)
    (expected : UInt32) (netProfit : Option MoneyAmount)
    (hk : finalKind t.hasRejection netProfit = exactKind es) :
    conclude t (t.completedMembers == expected) netProfit =
      { final := es.length == expected.toNat, unresolved := u,
        allMembersTerminal := es.length == expected.toNat, completedMembers := .ofNat es.length
        aggregationStatus := if es.length == expected.toNat then .ready else .pending
        kind := if es.length == expected.toNat then some (exactKind es) else none
        netProfit } := by
  have hc : t.completedMembers = .ofNat es.length := by
    rw [← UInt32.toNat_inj, h.completed, UInt32.toNat_ofNat_of_lt' hn]
  have he : (t.completedMembers == expected) = (es.length == expected.toNat) := by
    rw [Bool.eq_iff_iff]
    simp [← UInt32.toNat_inj, h.completed]
  rw [he]
  simp only [conclude, hk, h.unresolved, hc]
  cases es.length == expected.toNat <;> simp

/-- `aggregate` is the exact outcome of the members' terminal events. -/
theorem aggregate_exact {a : ExecutionGroupAggregator} (hn : a.members.values.length < 2 ^ 32) :
    a.aggregate = exactOutcome a.group.expectedMembers a.zero (terminals a.members.values)
      (anyUnresolved a.members.values) := by
  have h := tally_counts hn
  have hle : (terminals a.members.values).length < 2 ^ 32 :=
    lt_of_le_of_lt (List.length_filterMap_le _ _) hn
  generalize terminals a.members.values = es at h hle ⊢
  generalize anyUnresolved a.members.values = u at h ⊢
  have hc : a.tally.completedMembers = .ofNat es.length := by
    rw [← UInt32.toNat_inj, h.completed, UInt32.toNat_ofNat_of_lt' hle]
  have he : (a.tally.completedMembers == a.group.expectedMembers) =
      (es.length == a.group.expectedMembers.toNat) := by
    rw [Bool.eq_iff_iff]
    simp [← UInt32.toNat_inj, h.completed]
  cases hx : es.any (·.netProfit.isSome) with
  | false =>
      have hk := conclude_eq h hle a.group.expectedMembers none (by
        simp [exactKind, finalKind, hx, h.rejection])
      simp [aggregate, exactOutcome, h.execution, hx, hk]
  | true =>
      by_cases hr : -2 ^ 63 ≤ netOf es ∧ netOf es < 2 ^ 63
      · have hu := NetAccumulator.toUnits_of_range (a := a.tally.accumulator)
          (by rw [h.value]; exact hr.1) (by rw [h.value]; exact hr.2)
        rw [h.value] at hu
        have hi : (Int64.ofInt (netOf es)).toInt = netOf es := Int64.toInt_ofInt_of_le hr.1 hr.2
        have hk := conclude_eq h hle a.group.expectedMembers
          (some { a.zero with units := Int64.ofInt (netOf es) }) (by
            simp [exactKind, finalKind, hx, Int64.lt_iff_toInt_lt, hi])
        have hin : (!(decide (-2 ^ 63 ≤ netOf es) && decide (netOf es < 2 ^ 63))) = false := by
          simp only [decide_eq_true hr.1, decide_eq_true hr.2, Bool.and_self, Bool.not_true]
        simp only [aggregate, exactOutcome, h.execution, hx, hu, hk, hin, Bool.and_false, if_true,
          Bool.false_eq_true, if_false]
      · have hu := NetAccumulator.toUnits_of_not_range (a := a.tally.accumulator)
          (by rw [h.value]; exact hr)
        have hout : (!(decide (-2 ^ 63 ≤ netOf es) && decide (netOf es < 2 ^ 63))) = true := by
          rw [Bool.not_eq_true', Bool.eq_false_iff, Ne, Bool.and_eq_true, decide_eq_true_eq,
            decide_eq_true_eq]
          exact hr
        simp only [aggregate, exactOutcome, h.execution, hx, hu, hout, Bool.and_true, if_true,
          h.unresolved, he]
        rw [hc]

end ExecutionGroupAggregator

end OptionX.TradingSystem
