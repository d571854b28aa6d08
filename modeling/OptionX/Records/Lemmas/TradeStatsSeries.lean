import OptionX.Records.TradeStatsCalculator

/-!
# Lemmas on series

The series of the outcomes in their order are its maximal runs of wins and of losses. The loop closes a series when the
next run begins, so that after some runs the last one is still open.
-/

namespace OptionX.Records.TradeStatsCalculator

open Lib.StableSort (runs sortOn runs_const runs_chain runs_flatten)
open TradeExecution (TradeState)

/-- Outcomes by their state, run after run. -/
abbrev OutcomeRuns := List (TradeState × List OutcomeEvent)

/-- The lengths of the runs of a state. -/
def lengths (state : TradeState) (rs : OutcomeRuns) : List Nat :=
  (rs.filter fun run => run.1 = state).map fun run => run.2.length

/-- The length of the last run, if it is one of the state. -/
def trailing (state : TradeState) (rs : OutcomeRuns) : Nat :=
  match rs.getLast? with
  | some run => if run.1 = state then run.2.length else 0
  | none => 0

/-- The figures of a sequence of outcomes, read off its maximal runs. -/
def seriesOf (events : List OutcomeEvent) : TradeSeriesStats :=
  let rs := runs OutcomeEvent.tradeState events
  let wins := lengths .win rs
  let losses := lengths .loss rs
  { maxWinSeries := wins.foldl max 0
    maxLossSeries := losses.foldl max 0
    totalWinSeries := wins.length
    totalLossSeries := losses.length
    avgWinSeries := if 0 < wins.length then wins.sum / wins.length else 0
    avgLossSeries := if 0 < losses.length then losses.sum / losses.length else 0
    currentSeries := if 0 < trailing .win rs then trailing .win rs else trailing .loss rs
    currentIsWin := 0 < trailing .win rs }

namespace SeriesCount

variable {s : SeriesCount} {rs : OutcomeRuns} {run : List OutcomeEvent} {state : TradeState}

/-- The loop after some runs: the last series is open, the others are counted. -/
structure Counts (rs : OutcomeRuns) (s : SeriesCount) : Prop where
  curWin : s.curWin = trailing .win rs
  curLoss : s.curLoss = trailing .loss rs
  countW : s.closeWin.countW = (lengths .win rs).length
  maxW : s.closeWin.maxW = (lengths .win rs).foldl max 0
  totalWLen : s.closeWin.totalWLen = (lengths .win rs).sum
  countL : s.closeLoss.countL = (lengths .loss rs).length
  maxL : s.closeLoss.maxL = (lengths .loss rs).foldl max 0
  totalLLen : s.closeLoss.totalLLen = (lengths .loss rs).sum

@[simp] theorem lengths_append (k : TradeState) :
    lengths state (rs ++ [(k, run)]) = lengths state rs ++ if k = state then [run.length] else [] := by
  by_cases hk : k = state <;> simp [lengths, hk]

@[simp] theorem trailing_append (k : TradeState) : trailing state (rs ++ [(k, run)]) = if k = state then run.length else 0 := by
  simp [trailing]

theorem trailing_eq_zero (h : ∀ last, rs.getLast? = some last → last.1 ≠ state) : trailing state rs = 0 := by
  unfold trailing
  split
  · next last hlast => rw [if_neg (h last hlast)]
  · rfl

theorem closeWin_zero (h : s.curWin = 0) : s.closeWin = s := by simp [closeWin, h]

theorem closeLoss_zero (h : s.curLoss = 0) : s.closeLoss = s := by simp [closeLoss, h]

@[simp] theorem curLoss_closeLoss : s.closeLoss.curLoss = 0 := by
  unfold closeLoss
  split
  · rfl
  · omega

@[simp] theorem curWin_closeWin : s.closeWin.curWin = 0 := by
  unfold closeWin
  split
  · rfl
  · omega

@[simp] theorem curWin_closeLoss : s.closeLoss.curWin = s.curWin := by
  unfold closeLoss
  split <;> rfl

@[simp] theorem curLoss_closeWin : s.closeWin.curLoss = s.curLoss := by
  unfold closeWin
  split <;> rfl

@[simp] theorem closeLoss_wins : s.closeLoss.countW = s.countW ∧ s.closeLoss.maxW = s.maxW ∧
    s.closeLoss.totalWLen = s.totalWLen := by
  unfold closeLoss
  split <;> simp

@[simp] theorem closeWin_losses : s.closeWin.countL = s.countL ∧ s.closeWin.maxL = s.maxL ∧
    s.closeWin.totalLLen = s.totalLLen := by
  unfold closeWin
  split <;> simp

/-- Closing the wins does not touch what closing the losses counts. -/
@[simp] theorem closeWin_closeLoss : s.closeWin.closeLoss.countL = s.closeLoss.countL ∧
    s.closeWin.closeLoss.maxL = s.closeLoss.maxL ∧ s.closeWin.closeLoss.totalLLen = s.closeLoss.totalLLen := by
  by_cases h : 0 < s.curLoss <;> simp [closeLoss, h]

theorem foldl_win (h : ∀ e ∈ run, e.tradeState = .win) (hzero : s.curLoss = 0) :
    run.foldl next s = { s with curWin := s.curWin + run.length } := by
  induction run generalizing s with
  | nil => rfl
  | cons e run ih =>
      have hnext : s.next e = { s with curWin := s.curWin + 1 } := by simp [next, h e (by simp), closeLoss_zero hzero]
      have hrest := ih (s := { s with curWin := s.curWin + 1 }) (fun e he => h e (List.mem_cons_of_mem _ he)) hzero
      rw [List.foldl_cons, hnext, hrest]
      simp [Nat.add_comm, Nat.add_left_comm]

theorem foldl_loss (h : ∀ e ∈ run, e.tradeState = .loss) (hzero : s.curWin = 0) :
    run.foldl next s = { s with curLoss := s.curLoss + run.length } := by
  induction run generalizing s with
  | nil => rfl
  | cons e run ih =>
      have hnext : s.next e = { s with curLoss := s.curLoss + 1 } := by simp [next, h e (by simp), closeWin_zero hzero]
      have hrest := ih (s := { s with curLoss := s.curLoss + 1 }) (fun e he => h e (List.mem_cons_of_mem _ he)) hzero
      rw [List.foldl_cons, hnext, hrest]
      simp [Nat.add_comm, Nat.add_left_comm]

theorem foldl_other (h : ∀ e ∈ run, e.tradeState ≠ .win ∧ e.tradeState ≠ .loss) (hwin : s.curWin = 0)
    (hloss : s.curLoss = 0) : run.foldl next s = s := by
  induction run with
  | nil => rfl
  | cons e run ih =>
      have hnext : s.next e = s := by
        have he := h e (by simp)
        cases hstate : e.tradeState <;> simp_all [next, closeWin_zero, closeLoss_zero]
      rw [List.foldl_cons, hnext, ih fun e he => h e (List.mem_cons_of_mem _ he)]

/-- A run of another state than the last one closes the last series and opens its own. -/
theorem Counts.next (hcounts : Counts rs s) (hlast : ∀ last, rs.getLast? = some last → last.1 ≠ state) (hne : run ≠ [])
    (hconst : ∀ e ∈ run, e.tradeState = state) : Counts (rs ++ [(state, run)]) (run.foldl SeriesCount.next s) := by
  obtain ⟨e, rest, rfl⟩ := List.exists_cons_of_ne_nil hne
  have he : e.tradeState = state := hconst e (by simp)
  have hrest : ∀ e ∈ rest, e.tradeState = state := fun e he => hconst e (List.mem_cons_of_mem _ he)
  have hzero := trailing_eq_zero hlast
  obtain ⟨hcurWin, hcurLoss, hcountW, hmaxW, htotalW, hcountL, hmaxL, htotalL⟩ := hcounts
  rw [List.foldl_cons]
  by_cases hwin : state = .win
  · subst hwin
    rw [closeWin_zero (hcurWin.trans hzero)] at hcountW hmaxW htotalW
    have hfold : rest.foldl SeriesCount.next (s.next e) = { s.closeLoss with curWin := rest.length + 1 } := by
      rw [foldl_win hrest (by simp [SeriesCount.next, he])]
      simp [SeriesCount.next, he, hcurWin, hzero, Nat.add_comm]
    rw [hfold]
    constructor <;> simp [closeWin, closeLoss_zero, hcountW, hmaxW, htotalW, hcountL, hmaxL, htotalL]
  · by_cases hloss : state = .loss
    · subst hloss
      rw [closeLoss_zero (hcurLoss.trans hzero)] at hcountL hmaxL htotalL
      have hfold : rest.foldl SeriesCount.next (s.next e) = { s.closeWin with curLoss := rest.length + 1 } := by
        rw [foldl_loss hrest (by simp [SeriesCount.next, he])]
        simp [SeriesCount.next, he, hcurLoss, hzero, Nat.add_comm]
      rw [hfold]
      constructor <;> simp [closeLoss, closeWin_zero, hcountW, hmaxW, htotalW, hcountL, hmaxL, htotalL]
    · have hnext : s.next e = s.closeWin.closeLoss := by
        cases hstate : state <;> simp_all [SeriesCount.next]
      have hfold : rest.foldl SeriesCount.next (s.next e) = s.closeWin.closeLoss := by
        rw [hnext, foldl_other (fun e he => by simp [hrest e he, hwin, hloss]) (by simp) (by simp)]
      rw [hfold]
      constructor <;> simp [closeWin_zero, closeLoss_zero, hwin, hloss, hcountW, hmaxW, htotalW, hcountL, hmaxL, htotalL]

variable (rs) in
theorem counts_runs (h : ∀ run ∈ rs, run.2 ≠ [] ∧ ∀ e ∈ run.2, e.tradeState = run.1)
    (hchain : rs.IsChain fun run next => run.1 ≠ next.1) :
    Counts rs ((rs.flatMap Prod.snd).foldl SeriesCount.next {}) := by
  induction rs using List.reverseRecOn with
  | nil => exact ⟨rfl, rfl, rfl, rfl, rfl, rfl, rfl, rfl⟩
  | append_singleton rs run ih =>
      have hparts := List.isChain_append.mp hchain
      have hcounts := ih (fun run hrun => h run (by simp [hrun])) hparts.1
      have hrun := h run (by simp)
      rw [List.flatMap_append, List.foldl_append]
      simpa using hcounts.next (fun last hlast => hparts.2.2 last hlast run rfl) hrun.1 hrun.2

end SeriesCount

/-- The figures of the loop are those of the maximal runs. -/
theorem recountSeries_eq (events : List OutcomeEvent) : recountSeries events = seriesOf (sortOn OutcomeEvent.key events) := by
  have hcounts := SeriesCount.counts_runs (runs OutcomeEvent.tradeState (sortOn OutcomeEvent.key events))
    (fun run hrun => runs_const hrun) runs_chain
  rw [runs_flatten] at hcounts
  obtain ⟨hcurWin, hcurLoss, hcountW, hmaxW, htotalW, hcountL, hmaxL, htotalL⟩ := hcounts
  simp only [recountSeries, seriesOf, SeriesCount.closeWin_closeLoss, SeriesCount.closeLoss_wins, hcurWin, hcurLoss,
    hcountW, hmaxW, htotalW, hcountL, hmaxL, htotalL]

end OptionX.Records.TradeStatsCalculator
