import OptionX.MarketData.Lemmas.TickRange
import OptionX.MarketData.TickChunks

/-!
# What a recovery's ranges cover

The checked computations are the route's own; a range stays within the limit and its target, and each one goes further
than the one before.
-/

namespace OptionX.MarketData

open Lib.Machine

namespace Checked

/-! ## The checked computations are the route's -/

theorem alignTickHistoryTimeMs_ok (timeMs intervalMs : Nat) :
    alignTickHistoryTimeMs timeMs intervalMs = .ok (MarketData.alignTickHistoryTimeMs timeMs intervalMs) := by
  unfold alignTickHistoryTimeMs MarketData.alignTickHistoryTimeMs
  split
  · rfl
  · exact u64Sub_ok (Nat.mod_le _ _)

theorem saturatingAdd_ok {left right : Nat} (h : right ≤ u64Max) :
    saturatingAdd left right = .ok (MarketData.saturatingAdd left right) := by
  unfold saturatingAdd MarketData.saturatingAdd
  rw [u64Sub_ok h, ok_bind]
  split
  · rfl
  · exact u64_ok (by unfold u64Max at *; unfold uint64Max; omega)

theorem boundedTickHistoryToTimeMs_ok {maxBackfillMs : Nat} (fromMs targetMs intervalMs : Nat)
    (hmax : maxBackfillMs ≤ u64Max) :
    boundedTickHistoryToTimeMs fromMs targetMs maxBackfillMs intervalMs =
      .ok (MarketData.boundedTickHistoryToTimeMs fromMs targetMs maxBackfillMs intervalMs) := by
  unfold boundedTickHistoryToTimeMs MarketData.boundedTickHistoryToTimeMs
  by_cases hzero : maxBackfillMs = 0
  · rw [if_pos hzero, if_pos hzero, alignTickHistoryTimeMs_ok]
  · rw [if_neg hzero, if_neg hzero, u64Sub_ok (by omega), ok_bind, saturatingAdd_ok (by omega), ok_bind,
      alignTickHistoryTimeMs_ok, ok_bind, alignTickHistoryTimeMs_ok, ok_bind]
    dsimp only
    generalize MarketData.saturatingAdd fromMs (maxBackfillMs - 1) = bounded
    by_cases hend : MarketData.alignTickHistoryTimeMs targetMs intervalMs ≤ bounded
    · simp [hend]
    · rw [if_neg hend, if_neg hend]
      by_cases hgrid : intervalMs = 0
      · rw [if_pos hgrid, if_pos hgrid]
        rfl
      · rw [if_neg hgrid, if_neg hgrid]
        rfl

theorem startAfter_ok {previousMs step : Nat} (h : step ≤ u64Max) :
    startAfter previousMs step =
      .ok (if u64Max - step < previousMs then none else some (previousMs + step)) := by
  unfold startAfter
  rw [u64Sub_ok h, ok_bind]
  split
  · rfl
  · rw [u64_ok (by unfold u64Max at *; unfold uint64Max; omega)]
    rfl

theorem nextTickHistoryRange_ok {maxBackfillMs intervalMs : Nat} (previousMs targetMs : Nat)
    (hmax : maxBackfillMs ≤ u64Max) (hinterval : intervalMs ≤ u64Max) :
    nextTickHistoryRange previousMs targetMs maxBackfillMs intervalMs =
      .ok (MarketData.nextTickHistoryRange previousMs targetMs maxBackfillMs intervalMs) := by
  have hstep : (if 0 < intervalMs then intervalMs else 1) ≤ u64Max := by
    split
    · exact hinterval
    · decide
  unfold nextTickHistoryRange MarketData.nextTickHistoryRange
  by_cases hdone : targetMs ≤ previousMs
  · rw [if_pos hdone, if_pos hdone]
  · rw [if_neg hdone, if_neg hdone, startAfter_ok hstep]
    dsimp only
    by_cases hcan : maxBackfillMs = 0 ∨ (if intervalMs = 0 then 1 < maxBackfillMs else intervalMs < maxBackfillMs)
    · simp only [hcan, if_true, not_true_eq_false, false_and, if_false, ok_bind]
      split
      · rfl
      · rw [boundedTickHistoryToTimeMs_ok _ _ _ hmax, ok_bind]
        rfl
    · simp only [hcan, if_false, not_false_eq_true, true_and, ok_bind]
      generalize (if 0 < intervalMs then intervalMs else 1) = step
      by_cases hwrap : u64Max - step < previousMs
      · rw [if_pos hwrap, if_pos hwrap]
        rfl
      · rw [if_neg hwrap, if_neg hwrap]
        dsimp only
        split
        · rfl
        · rw [boundedTickHistoryToTimeMs_ok _ _ _ hmax, ok_bind]
          rfl

end Checked

/-! ## The grid -/

/-- The distance of two instants that a complete history has to hold. -/
def gridStep (intervalMs : Nat) : Nat := if 0 < intervalMs then intervalMs else 1

/-- The instants that a complete history has to hold: the provider's grid, or every millisecond. -/
def OnGrid (intervalMs timeMs : Nat) : Prop := 0 < intervalMs → intervalMs ∣ timeMs

theorem onGrid_iff {intervalMs timeMs : Nat} : OnGrid intervalMs timeMs ↔ gridStep intervalMs ∣ timeMs := by
  unfold OnGrid gridStep
  split
  · rename_i h
    simp [h]
  · rename_i h
    simp [h]

theorem gridStep_pos (intervalMs : Nat) : 0 < gridStep intervalMs := by
  unfold gridStep
  split
  · assumption
  · decide

/-- Two instants of the grid are a step apart. -/
theorem OnGrid.add_le {intervalMs a b : Nat} (ha : OnGrid intervalMs a) (hb : OnGrid intervalMs b) (h : a < b) :
    a + gridStep intervalMs ≤ b := by
  obtain ⟨k, rfl⟩ := onGrid_iff.mp ha
  obtain ⟨l, rfl⟩ := onGrid_iff.mp hb
  have hkl : k < l := Nat.lt_of_mul_lt_mul_left h
  calc gridStep intervalMs * k + gridStep intervalMs = gridStep intervalMs * (k + 1) := by ring
    _ ≤ gridStep intervalMs * l := Nat.mul_le_mul_left _ hkl

/-- The alignment of a time is the last instant of the grid up to it. -/
theorem le_align {intervalMs a timeMs : Nat} (ha : OnGrid intervalMs a) (h : a ≤ timeMs) :
    a ≤ alignTickHistoryTimeMs timeMs intervalMs := by
  unfold alignTickHistoryTimeMs
  split
  · exact h
  · rename_i h0
    have hpos : 0 < intervalMs := by omega
    obtain ⟨k, rfl⟩ := ha hpos
    have hk : k ≤ timeMs / intervalMs := (Nat.le_div_iff_mul_le hpos).mpr (by rwa [Nat.mul_comm])
    have hsplit := Nat.div_add_mod timeMs intervalMs
    have hmul := Nat.mul_le_mul_left intervalMs hk
    omega

theorem align_eq {intervalMs timeMs : Nat} (h : OnGrid intervalMs timeMs) :
    alignTickHistoryTimeMs timeMs intervalMs = timeMs :=
  Nat.le_antisymm (alignTickHistoryTimeMs_le _ _) (le_align h le_rfl)

/-! ## One range -/

/-- A range from the grid to the grid: how far it goes, and that it stops short of the target only at the limit. -/
theorem boundedTickHistoryToTimeMs_spec {fromMs targetMs intervalMs : Nat} (maxBackfillMs : Nat)
    (hfrom : OnGrid intervalMs fromMs) (htarget : OnGrid intervalMs targetMs) (hle : fromMs ≤ targetMs)
    (hu : targetMs ≤ u64Max) :
    let toMs := boundedTickHistoryToTimeMs fromMs targetMs maxBackfillMs intervalMs
    (fromMs ≤ toMs ∧ toMs ≤ targetMs ∧ OnGrid intervalMs toMs) ∧
      (maxBackfillMs ≠ 0 → toMs - fromMs + 1 ≤ maxBackfillMs) ∧
      (toMs = targetMs ∨ fromMs + maxBackfillMs ≤ toMs + gridStep intervalMs) := by
  have hdvd := fun hpos => boundedTickHistoryToTimeMs_dvd targetMs maxBackfillMs hpos (hfrom hpos)
  unfold boundedTickHistoryToTimeMs at hdvd ⊢
  rw [align_eq htarget] at hdvd ⊢
  by_cases hzero : maxBackfillMs = 0
  · rw [if_pos hzero]
    exact ⟨⟨hle, le_rfl, htarget⟩, fun h => absurd hzero h, .inl rfl⟩
  · rw [if_neg hzero] at hdvd ⊢
    dsimp only at hdvd ⊢
    have hsat : saturatingAdd fromMs (maxBackfillMs - 1) ≤ fromMs + (maxBackfillMs - 1) ∧
        fromMs ≤ saturatingAdd fromMs (maxBackfillMs - 1) ∧
        (targetMs ≤ saturatingAdd fromMs (maxBackfillMs - 1) ∨
          saturatingAdd fromMs (maxBackfillMs - 1) = fromMs + (maxBackfillMs - 1)) := by
      unfold saturatingAdd
      split <;> omega
    generalize saturatingAdd fromMs (maxBackfillMs - 1) = bounded at hsat hdvd ⊢
    by_cases hend : targetMs ≤ bounded
    · rw [if_pos hend]
      exact ⟨⟨hle, le_rfl, htarget⟩, fun _ => by omega, .inl rfl⟩
    · rw [if_neg hend] at hdvd ⊢
      by_cases hgrid : intervalMs = 0
      · rw [if_pos hgrid]
        have hstep := gridStep_pos intervalMs
        exact ⟨⟨hsat.2.1, by omega, fun h => by omega⟩, fun _ => by omega, .inr (by omega)⟩
      · have haligned := le_align hfrom hsat.2.1
        have hbelow := alignTickHistoryTimeMs_le bounded intervalMs
        have hstep : gridStep intervalMs = intervalMs := if_pos (by omega)
        rw [if_neg hgrid, if_pos haligned] at hdvd ⊢
        have hlast : bounded < alignTickHistoryTimeMs bounded intervalMs + intervalMs := by
          unfold alignTickHistoryTimeMs
          have := Nat.mod_lt bounded (by omega : intervalMs > 0)
          split <;> omega
        exact ⟨⟨haligned, by omega, hdvd⟩, fun _ => by omega, .inr (by omega)⟩

theorem nextTickHistoryRange_done {previousMs targetMs : Nat} (maxBackfillMs intervalMs : Nat)
    (h : targetMs ≤ previousMs) : nextTickHistoryRange previousMs targetMs maxBackfillMs intervalMs = none :=
  if_pos h

/-- The next range begins at the end of the one before or a step after it, and goes further. -/
theorem nextTickHistoryRange_spec {previousMs targetMs : Nat} (maxBackfillMs intervalMs : Nat)
    (hprevious : OnGrid intervalMs previousMs) (htarget : OnGrid intervalMs targetMs) (hlt : previousMs < targetMs)
    (hu : targetMs ≤ u64Max) : ∃ fromMs toMs,
      nextTickHistoryRange previousMs targetMs maxBackfillMs intervalMs = some (fromMs, toMs) ∧
      previousMs ≤ fromMs ∧ fromMs ≤ previousMs + gridStep intervalMs ∧ previousMs < toMs ∧ fromMs ≤ toMs ∧
      toMs ≤ targetMs ∧ OnGrid intervalMs toMs ∧ (maxBackfillMs ≠ 0 → toMs - fromMs + 1 ≤ maxBackfillMs) := by
  have hroom := hprevious.add_le htarget hlt
  have hstep := gridStep_pos intervalMs
  have hnextGrid : OnGrid intervalMs (previousMs + gridStep intervalMs) := by
    rw [onGrid_iff] at hprevious ⊢
    exact hprevious.add dvd_rfl
  unfold nextTickHistoryRange
  rw [if_neg (by omega)]
  have hgrid : (if 0 < intervalMs then intervalMs else 1) = gridStep intervalMs := rfl
  dsimp only
  rw [hgrid]
  by_cases hcan : maxBackfillMs = 0 ∨ (if intervalMs = 0 then 1 < maxBackfillMs else intervalMs < maxBackfillMs)
  · obtain ⟨⟨hle, hto, hon⟩, hspan, hreach⟩ :=
      boundedTickHistoryToTimeMs_spec maxBackfillMs hprevious htarget hlt.le hu
    have hwide : maxBackfillMs ≠ 0 → gridStep intervalMs < maxBackfillMs := by
      intro hzero
      unfold gridStep
      split at hcan <;> split <;> omega
    have hunlimited : maxBackfillMs = 0 → boundedTickHistoryToTimeMs previousMs targetMs maxBackfillMs intervalMs =
        targetMs := by
      intro hzero
      unfold boundedTickHistoryToTimeMs
      rw [if_pos hzero, align_eq htarget]
    generalize htoMs : boundedTickHistoryToTimeMs previousMs targetMs maxBackfillMs intervalMs = toMs at *
    have hfurther : previousMs < toMs := by
      by_cases hzero : maxBackfillMs = 0
      · exact hunlimited hzero ▸ hlt
      · have := hwide hzero
        omega
    refine ⟨previousMs, toMs, ?_, le_rfl, by omega, hfurther, hle, hto, hon, hspan⟩
    simp [hcan, htoMs, Nat.not_lt.mpr hlt.le, Nat.not_lt.mpr hle, hle]
  · obtain ⟨⟨hle, hto, hon⟩, hspan, -⟩ := boundedTickHistoryToTimeMs_spec maxBackfillMs hnextGrid htarget hroom hu
    refine ⟨previousMs + gridStep intervalMs,
      boundedTickHistoryToTimeMs (previousMs + gridStep intervalMs) targetMs maxBackfillMs intervalMs, ?_,
      Nat.le_add_right _ _, le_rfl, by omega, hle, hto, hon, hspan⟩
    have hwrap : ¬ u64Max - gridStep intervalMs < previousMs := by omega
    simp [hcan, hwrap, Nat.not_lt.mpr hroom, Nat.not_lt.mpr hle, hle]

/-! ## All ranges -/

/-- What the ranges from one end on cover: each goes on where the one before ended, up to the target. -/
structure Chain (intervalMs limit targetMs : Nat) (previousMs : Nat) (ranges : List (Nat × Nat)) : Prop where
  bounds : ∀ r ∈ ranges, previousMs ≤ r.1 ∧ r.1 ≤ r.2 ∧ r.2 ≤ targetMs ∧ (limit ≠ 0 → r.2 - r.1 + 1 ≤ limit)
  increasing : (previousMs :: ranges.map (·.2)).Pairwise (· < ·)
  covers : ∀ timeMs, previousMs < timeMs → timeMs ≤ targetMs → OnGrid intervalMs timeMs →
    ∃ r ∈ ranges, r.1 ≤ timeMs ∧ timeMs ≤ r.2
  ends : (previousMs :: ranges.map (·.2)).getLast? = some targetMs

theorem Chain.nil (intervalMs limit targetMs : Nat) : Chain intervalMs limit targetMs targetMs [] where
  bounds r hr := by cases hr
  increasing := by simp
  covers timeMs hlt hle := by omega
  ends := rfl

theorem Chain.cons {intervalMs limit targetMs previousMs fromMs toMs : Nat} {ranges : List (Nat × Nat)}
    (h : Chain intervalMs limit targetMs toMs ranges) (hprevious : OnGrid intervalMs previousMs)
    (hfrom : previousMs ≤ fromMs) (hstep : fromMs ≤ previousMs + gridStep intervalMs) (hlt : previousMs < toMs)
    (hle : fromMs ≤ toMs) (hto : toMs ≤ targetMs) (hspan : limit ≠ 0 → toMs - fromMs + 1 ≤ limit) :
    Chain intervalMs limit targetMs previousMs ((fromMs, toMs) :: ranges) where
  bounds r hr := by
    rcases List.mem_cons.mp hr with rfl | hr
    · exact ⟨hfrom, hle, hto, hspan⟩
    · obtain ⟨h1, h2⟩ := h.bounds r hr
      exact ⟨by omega, h2⟩
  increasing := by
    have hlater := h.increasing
    rw [List.pairwise_cons] at hlater
    simp only [List.map_cons, List.pairwise_cons, List.mem_cons, forall_eq_or_imp]
    exact ⟨⟨hlt, fun t ht => hlt.trans (hlater.1 t ht)⟩, hlater⟩
  covers timeMs hafter hbefore hgrid := by
    by_cases hin : timeMs ≤ toMs
    · have := hprevious.add_le hgrid hafter
      exact ⟨(fromMs, toMs), List.mem_cons_self, by dsimp only; omega, hin⟩
    · obtain ⟨r, hr, hcover⟩ := h.covers timeMs (by omega) hbefore hgrid
      exact ⟨r, List.mem_cons_of_mem _ hr, hcover⟩
  ends := by
    rw [List.map_cons, List.getLast?_cons_cons]
    exact h.ends

theorem Checked.followingRanges_chain {limit intervalMs targetMs : Nat} (htarget : OnGrid intervalMs targetMs)
    (hu : targetMs ≤ u64Max) (hlimit : limit ≤ u64Max) (hinterval : intervalMs ≤ u64Max) (fuel previousMs : Nat)
    (hfuel : targetMs - previousMs < fuel) (hprevious : OnGrid intervalMs previousMs) (hle : previousMs ≤ targetMs) :
    ∃ ranges, followingRanges targetMs limit intervalMs fuel previousMs = .ok (some ranges) ∧
      Chain intervalMs limit targetMs previousMs ranges := by
  induction fuel generalizing previousMs with
  | zero => omega
  | succ fuel ih =>
      rw [followingRanges, nextTickHistoryRange_ok _ _ hlimit hinterval, ok_bind]
      rcases Nat.eq_or_lt_of_le hle with rfl | hlt
      · rw [nextTickHistoryRange_done limit intervalMs le_rfl]
        exact ⟨[], rfl, .nil _ _ _⟩
      · obtain ⟨fromMs, toMs, hnext, hfrom, hstep, hfurther, hrange, hto, hon, hspan⟩ :=
          nextTickHistoryRange_spec limit intervalMs hprevious htarget hlt hu
        obtain ⟨ranges, hranges, hchain⟩ := ih toMs (by omega) hon hto
        rw [hnext]
        dsimp only
        rw [hranges]
        exact ⟨_, rfl, hchain.cons hprevious hfrom hstep hfurther hrange hto hspan⟩

end OptionX.MarketData
