import OptionX.MarketData.TickRoute

/-!
# Ranges of tick history

On a grid every range ends on a boundary of the grid, and a range that stops short of its target has a next one.
-/

namespace OptionX.MarketData

theorem alignTickHistoryTimeMs_le (timeMs intervalMs : Nat) : alignTickHistoryTimeMs timeMs intervalMs ≤ timeMs := by
  unfold alignTickHistoryTimeMs
  split
  · exact le_rfl
  · exact Nat.sub_le _ _

theorem alignTickHistoryTimeMs_dvd (timeMs intervalMs : Nat) (h : 0 < intervalMs) :
    intervalMs ∣ alignTickHistoryTimeMs timeMs intervalMs := by
  unfold alignTickHistoryTimeMs
  split
  · rename_i h0
    rcases h0 with rfl | rfl
    · exact dvd_zero _
    · exact absurd h (lt_irrefl 0)
  · exact Nat.dvd_sub_mod timeMs

@[simp] theorem alignTickHistoryTimeMs_zero_right (timeMs : Nat) : alignTickHistoryTimeMs timeMs 0 = timeMs :=
  if_pos (.inr rfl)

/-- A range that starts on the grid ends on it. -/
theorem boundedTickHistoryToTimeMs_dvd {fromMs intervalMs : Nat} (targetMs maxBackfillMs : Nat)
    (h : 0 < intervalMs) (hfrom : intervalMs ∣ fromMs) :
    intervalMs ∣ boundedTickHistoryToTimeMs fromMs targetMs maxBackfillMs intervalMs := by
  unfold boundedTickHistoryToTimeMs
  split
  · exact alignTickHistoryTimeMs_dvd _ _ h
  dsimp only
  split
  · exact alignTickHistoryTimeMs_dvd _ _ h
  rw [if_neg (by omega)]
  split
  · exact alignTickHistoryTimeMs_dvd _ _ h
  · exact hfrom

theorem firstTickHistoryToTimeMs_dvd {fromMs intervalMs : Nat} (targetMs maxBackfillMs : Nat)
    (h : 0 < intervalMs) (hfrom : intervalMs ∣ fromMs) :
    intervalMs ∣ firstTickHistoryToTimeMs fromMs targetMs maxBackfillMs intervalMs := by
  unfold firstTickHistoryToTimeMs
  dsimp only
  split
  · exact hfrom
  · exact boundedTickHistoryToTimeMs_dvd _ _ h hfrom

theorem le_saturatingAdd {left : Nat} (right : Nat) (h : left ≤ u64Max) : left ≤ saturatingAdd left right := by
  unfold saturatingAdd
  split
  · exact h
  · exact Nat.le_add_right _ _

/-- Without a grid a range reaches from its start on. -/
theorem le_boundedTickHistoryToTimeMs {fromMs targetMs : Nat} (maxBackfillMs : Nat) (h : fromMs ≤ targetMs)
    (hu : fromMs ≤ u64Max) : fromMs ≤ boundedTickHistoryToTimeMs fromMs targetMs maxBackfillMs 0 := by
  unfold boundedTickHistoryToTimeMs
  simp only [alignTickHistoryTimeMs_zero_right, if_true]
  split
  · exact h
  split
  · exact h
  · exact le_saturatingAdd _ hu

/-- A first range is never empty. -/
theorem le_firstTickHistoryToTimeMs {fromMs targetMs intervalMs : Nat} (maxBackfillMs : Nat)
    (h : intervalMs = 0 → fromMs ≤ targetMs ∧ fromMs ≤ u64Max) :
    fromMs ≤ firstTickHistoryToTimeMs fromMs targetMs maxBackfillMs intervalMs := by
  unfold firstTickHistoryToTimeMs
  dsimp only
  split
  · exact le_rfl
  · rename_i hno
    cases intervalMs with
    | zero => exact le_boundedTickHistoryToTimeMs maxBackfillMs (h rfl).1 (h rfl).2
    | succ n => omega

/-- A range that stops short of its target has a next one, on the grid as well. -/
theorem nextTickHistoryRange_some {toMs targetMs : Nat} (maxBackfillMs intervalMs : Nat) (hlt : toMs < targetMs)
    (hu : targetMs ≤ u64Max) (hto : 0 < intervalMs → intervalMs ∣ toMs)
    (htarget : 0 < intervalMs → intervalMs ∣ targetMs) :
    ∃ range, nextTickHistoryRange toMs targetMs maxBackfillMs intervalMs = some range ∧
      (0 < intervalMs → intervalMs ∣ range.2) := by
  have hstep : toMs + (if 0 < intervalMs then intervalMs else 1) ≤ targetMs := by
    split
    · rename_i hpos
      obtain ⟨a, rfl⟩ := hto hpos
      obtain ⟨b, rfl⟩ := htarget hpos
      have hab : a < b := Nat.lt_of_mul_lt_mul_left hlt
      exact (Nat.mul_succ intervalMs a).symm.le.trans (Nat.mul_le_mul_left _ hab)
    · exact hlt
  have hdvd : 0 < intervalMs → intervalMs ∣ toMs + (if 0 < intervalMs then intervalMs else 1) := by
    intro hpos
    rw [if_pos hpos]
    exact (hto hpos).add dvd_rfl
  unfold nextTickHistoryRange
  rw [if_neg (by omega)]
  dsimp only
  generalize (if 0 < intervalMs then intervalMs else 1) = step at hstep hdvd ⊢
  rw [if_neg (by omega)]
  generalize hn : (if maxBackfillMs = 0 ∨
    (if intervalMs = 0 then 1 < maxBackfillMs else intervalMs < maxBackfillMs) then toMs else toMs + step) = nextFrom
  have hfrom : nextFrom = toMs ∨ nextFrom = toMs + step := hn ▸ ite_eq_or_eq _ _ _
  have hle : nextFrom ≤ targetMs := by omega
  have hnext : 0 < intervalMs → intervalMs ∣ nextFrom := by
    intro hpos
    rcases hfrom with h | h
    · exact h ▸ hto hpos
    · exact h ▸ hdvd hpos
  rw [if_neg (by omega)]
  refine ⟨(nextFrom, firstTickHistoryToTimeMs nextFrom targetMs maxBackfillMs intervalMs), if_pos ?_, fun hpos =>
    firstTickHistoryToTimeMs_dvd _ _ hpos (hnext hpos)⟩
  exact le_firstTickHistoryToTimeMs maxBackfillMs fun _ => ⟨hle, hle.trans hu⟩

end OptionX.MarketData
