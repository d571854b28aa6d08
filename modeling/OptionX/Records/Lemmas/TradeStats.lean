import OptionX.Records.TradeStatsCalculator

/-!
# Lemmas on outcome counters

The counters of a list add up over its records, whatever their order. What reaches the money figures reaches the
counters.
-/

namespace OptionX.Records

open Lib (OrderedMap)
open Lib.Tally (collect)

namespace TradeWinrateStats

/-- All counters, without the rates. -/
def counters (stats : TradeWinrateStats) : Fin 6 → Nat :=
  ![stats.wins, stats.losses, stats.standoffs, stats.refunds, stats.errors, stats.trades]

@[simp] theorem counters_calc (stats : TradeWinrateStats) : stats.calc.counters = stats.counters := rfl

@[simp] theorem counters_default : ({} : TradeWinrateStats).counters = 0 := by decide

/-- What one record adds to the counters. -/
def outcome (record : TradeRecord ℚ) : Fin 6 → Nat := (add {} record).counters

theorem counters_add (stats : TradeWinrateStats) (record : TradeRecord ℚ) :
    (stats.add record).counters = stats.counters + outcome record := by
  funext i
  unfold outcome add counters
  split_ifs <;> fin_cases i <;> simp

theorem ext_counters {stats stats' : TradeWinrateStats} (h : stats.counters = stats'.counters)
    (hwinrate : stats.winrate = stats'.winrate) (hresult : stats.resultRate = stats'.resultRate) : stats = stats' := by
  have hi := congrFun h
  cases stats; cases stats'
  have h0 := hi 0; have h1 := hi 1; have h2 := hi 2; have h3 := hi 3; have h4 := hi 4; have h5 := hi 5
  simp_all [counters]

@[simp] theorem winrate_add (stats : TradeWinrateStats) (record : TradeRecord ℚ) :
    (stats.add record).winrate = stats.winrate := by
  unfold add
  split_ifs <;> rfl

@[simp] theorem resultRate_add (stats : TradeWinrateStats) (record : TradeRecord ℚ) :
    (stats.add record).resultRate = stats.resultRate := by
  unfold add
  split_ifs <;> rfl

instance add_comm : RightCommutative add := ⟨fun stats r r' => by
  apply ext_counters
  · simp only [counters_add]
    ac_rfl
  · simp
  · simp⟩

theorem counters_foldl (stats : TradeWinrateStats) (records : List (TradeRecord ℚ)) :
    (records.foldl add stats).counters = stats.counters + (records.map outcome).sum := by
  induction records generalizing stats with
  | nil => simp
  | cons r records ih => rw [List.foldl_cons, ih, counters_add, List.map_cons, List.sum_cons, add_assoc]

end TradeWinrateStats

namespace TradeStatsCalculator

open TradeWinrateStats (outcome counters counters_add)

variable {Zone : Type} {shield : TimeShield Zone} {config : TradeStatsConfig Zone} {records records' : List (TradeRecord ℚ)}

@[simp] theorem counters_winrate : (winrate records).counters = (records.map outcome).sum := by
  simp [winrate, TradeWinrateStats.counters_foldl]

theorem winrate_perm (h : records.Perm records') : winrate records = winrate records' := by
  rw [winrate, winrate, h.foldl_eq]

section Keys

variable {κ : Type} [LinearOrder κ] {key : TradeRecord ℚ → Option κ}

theorem winrateBy_perm (h : records.Perm records') : winrateBy key records = winrateBy key records' := by
  rw [winrateBy, winrateBy, Lib.Tally.collect_perm h]

/-- Under keys that every record has, the counters add up to those of all records. -/
theorem sumOf_winrateBy (key : TradeRecord ℚ → κ) :
    (winrateBy (fun r => some (key r)) records).sumOf counters = (winrate records).counters := by
  rw [winrateBy, OrderedMap.sumOf_mapValues, counters_winrate]
  exact Lib.Tally.sumOf_collect TradeWinrateStats.counters_default counters_add fun _ _ => rfl

end Keys

theorem winrateAt_perm {n : Nat} {index : TradeRecord ℚ → Option Int} (h : records.Perm records') :
    winrateAt n index records = winrateAt n index records' := funext fun _ => winrate_perm (h.filter _)

theorem includeState_of_isResultState {rec : TradeRecord ℚ} (h : isResultState rec.tradeState = true) :
    includeState config rec = true ∧ isTerminalTradeState rec.tradeState = true := by
  cases hstate : rec.tradeState <;> simp_all [isResultState, includeState, isTerminalTradeState, isErrorTradeState]

/-- A record with a result has an outcome. -/
theorem hasOutcome_of_hasResult {rec : TradeRecord ℚ} (h : hasResult shield config rec = true) :
    hasOutcome shield config rec = true := by
  rw [hasResult, Bool.and_eq_true] at h
  obtain ⟨hstate, hterminal⟩ := @includeState_of_isResultState Zone config rec h.2
  rw [hasOutcome, h.1, hstate, hterminal]
  rfl

end TradeStatsCalculator

end OptionX.Records
