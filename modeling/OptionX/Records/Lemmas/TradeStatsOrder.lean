import OptionX.Records.Lemmas.TradeStats

/-!
# Lemmas on the order of the input

All figures but the balance curves are the same for every order of the records: they are sums, maxima and counters, or
read off a list that is sorted by a key without ties.
-/

namespace OptionX.Records.TradeStatsCalculator

open Lib (OrderedMap)
open Lib.StableSort
open Lib.Tally (collect_perm)

variable {Zone : Type} {shield : TimeShield Zone} {config : TradeStatsConfig Zone} {records records' : List (TradeRecord ℚ)}

instance profit_comm : RightCommutative fun (sum : ℚ) (r : TradeRecord ℚ) => sum + profit config r :=
  ⟨fun sum r r' => by ring⟩

theorem profitBy_perm {time : Int → Int} (h : records.Perm records') :
    profitBy config time records = profitBy config time records' := collect_perm h

/-! ## Series -/

/-- Where no trade id occurs twice, the sort of the outcomes has no ties. -/
theorem recountSeries_perm (h : records.Perm records') (hids : (records.map TradeRecord.tradeId).Nodup) :
    recountSeries (records.map makeOutcomeEvent) = recountSeries (records'.map makeOutcomeEvent) := by
  have hsort : sortOn OutcomeEvent.key (records.map makeOutcomeEvent) =
      sortOn OutcomeEvent.key (records'.map makeOutcomeEvent) := by
    refine sortOn_eq_of_inj (h.map _) fun e he e' he' hkey => ?_
    obtain ⟨r, hr, rfl⟩ := List.mem_map.mp he
    obtain ⟨r', hr', rfl⟩ := List.mem_map.mp he'
    have hid : r.tradeId = r'.tradeId := by
      simp only [OutcomeEvent.key, makeOutcomeEvent, EmbeddingLike.apply_eq_iff_eq, Prod.mk.injEq] at hkey
      exact hkey.2.2.1
    rw [List.inj_on_of_nodup_map hids hr hr' hid]
  rw [recountSeries, recountSeries, hsort]

/-! ## Free funds -/

/-- The sum of the deltas of each time. -/
def deltas (events : List (Int × ℚ)) : List (Int × ℚ) :=
  (runs Prod.fst (sortOn Prod.fst events)).map fun run => (run.1, run.2.foldl (fun delta event => delta + event.2) 0)

theorem deltas_perm {events events' : List (Int × ℚ)} (h : events.Perm events') : deltas events = deltas events' := by
  have htimes : times Prod.fst (sortOn Prod.fst events) = times Prod.fst (sortOn Prod.fst events') :=
    times_congr (map_sortOn_eq _ h)
  have hcomm : RightCommutative fun (delta : ℚ) (event : Int × ℚ) => delta + event.2 := ⟨fun _ _ _ => by ring⟩
  rw [deltas, deltas, runs_eq (sortOn_sorted _ _), runs_eq (sortOn_sorted _ _), htimes, List.map_map, List.map_map]
  refine List.map_congr_left fun k _ => ?_
  simp only [Function.comp_apply, filter_sortOn]
  rw [(h.filter _).foldl_eq]

variable (config) in
theorem buildFreeFundsCurve_perm {events events' : List (Int × ℚ)} (h : events.Perm events') :
    buildFreeFundsCurve config events = buildFreeFundsCurve config events' := by
  have hdeltas : ∀ es, buildFreeFundsCurve config es = ((deltas es).foldl (fun (loop : FreeFundsLoop) d => loop.sample d.1 d.2)
      { freeFunds := config.startBalance, peakFree := config.startBalance }).stats := fun es => by
    rw [deltas, List.foldl_map]
    rfl
  rw [hdeltas, hdeltas, deltas_perm h]

/-! ## All figures -/

variable (shield config) in
/-- The statistics of two orders differ in the equity curves at most. -/
theorem calc_eq_iff (h : records.Perm records') (hids : (records.map TradeRecord.tradeId).Nodup) :
    TradeStatsCalculator.calc shield config records = TradeStatsCalculator.calc shield config records' ↔
      buildEquityCurves config (records.filter (hasResult shield config)) =
        buildEquityCurves config (records'.filter (hasResult shield config)) := by
  constructor
  · exact fun heq => congrArg TradeStats.toEquityStats heq
  · intro hequity
    have hresults := h.filter (hasResult shield config)
    have houtcomes := h.filter (hasOutcome shield config)
    have hids' : ((records.filter (hasOutcome shield config)).map TradeRecord.tradeId).Nodup :=
      hids.sublist (List.filter_sublist.map _)
    have hprofits := hresults.map (profit config)
    have hvolume := (hresults.map (amount config)).sum_eq
    have hgross := (hprofits.filter (0 < ·)).sum_eq
    have hloss := ((hprofits.filter (· < 0)).map (- ·)).sum_eq
    have hmax := hprofits.foldl_eq (f := max) 0
    have hmin := hprofits.foldl_eq (f := min) 0
    have hbuy := winrate_perm (houtcomes.filter fun r => r.orderType = .buy)
    have hsell := winrate_perm (houtcomes.filter fun r => r.orderType = .sell)
    have hcash := buildFreeFundsCurve_perm config (hresults.flatMap_right (cashEvents config))
    simp only [TradeStatsCalculator.calc, winrate_perm houtcomes, winrateBy_perm houtcomes, winrateBy_perm hresults,
      winrateAt_perm houtcomes, profitBy_perm hresults, recountSeries_perm houtcomes hids', hresults.length_eq,
      hprofits.sum_eq, hvolume, hgross, hloss, hmax, hmin, hbuy, hsell, hcash, hequity]

end OptionX.Records.TradeStatsCalculator
