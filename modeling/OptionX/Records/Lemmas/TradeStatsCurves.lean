import OptionX.Records.TradeStatsCalculator

/-!
# Lemmas on balance curves

A balance curve has a sample for every timestamp, made of the snapshots up to it in their sorted order: of the first and
the last one in a record curve, of the first and the last one of each account in a portfolio curve.
-/

namespace OptionX.Records.TradeStatsCalculator

open Lib (OrderedMap)
open Lib.StableSort

variable {Zone : Type} {config : TradeStatsConfig Zone} {event : CurveLoop → BalanceSnapshotEvent → CurveLoop}
  {loop : CurveLoop} {events : List BalanceSnapshotEvent} {e : BalanceSnapshotEvent}

/-! ## Samples -/

/-- A time, an equity and a baseline. -/
abbrev Sample := Int × ℚ × ℚ

/-- The curves and the peak after a sample. -/
def draw (pen : EquityStats × ℚ) (sample : Sample) : EquityStats × ℚ :=
  let peak := max pen.2 sample.2.1
  (updateEquityDrawdown (appendEquitySample pen.1 sample.1 sample.2.1 sample.2.2) sample.1 sample.2.1 peak, peak)

def sampleOf (state : Int × CurveLoop) : Sample := (state.1, state.2.equity, state.2.baseline)

/-- From the first snapshot on, the events neither read nor write the figures and the peak. -/
def Blind (event : CurveLoop → BalanceSnapshotEvent → CurveLoop) : Prop :=
  ∀ loop e, loop.hasBaseline = true → (event loop e).hasBaseline = true ∧
    ∀ stats peak, event { loop with stats, peak } e = { event loop e with stats, peak }

theorem Blind.foldl (hblind : Blind event) (hloop : loop.hasBaseline = true) (run : List BalanceSnapshotEvent) :
    (run.foldl event loop).hasBaseline = true ∧
      ∀ stats peak, run.foldl event { loop with stats, peak } = { run.foldl event loop with stats, peak } := by
  induction run generalizing loop with
  | nil => exact ⟨hloop, fun _ _ => rfl⟩
  | cons e run ih =>
      obtain ⟨hbase, heq⟩ := hblind loop e hloop
      obtain ⟨hbase', heq'⟩ := ih hbase
      exact ⟨hbase', fun stats peak => by rw [List.foldl_cons, heq, heq', List.foldl_cons]⟩

/-- The loop draws what its events make of the snapshots. -/
theorem Blind.draws (hblind : Blind event) (hloop : loop.hasBaseline = true) (rs : List (Int × List BalanceSnapshotEvent))
    (stats : EquityStats) (peak : ℚ) :
    (rs.foldl (fun (loop : CurveLoop) run => (run.2.foldl event loop).sample run.1) { loop with stats, peak }).stats =
      ((sampled event loop rs).foldl (fun pen state => draw pen (sampleOf state)) (stats, peak)).1 := by
  induction rs generalizing loop stats peak with
  | nil => rfl
  | cons run rs ih =>
      obtain ⟨k, run⟩ := run
      obtain ⟨hbase, heq⟩ := hblind.foldl hloop run
      rw [List.foldl_cons, sampled, List.foldl_cons, heq]
      exact ih hbase _ _

/-- The snapshots in the order of the builders. -/
def sortedEvents (events : List BalanceSnapshotEvent) : List BalanceSnapshotEvent :=
  sortOn BalanceSnapshotEvent.key events

theorem sortedEvents_ts (events : List BalanceSnapshotEvent) :
    (sortedEvents events).Pairwise fun e e' => e.ts ≤ e'.ts := by
  refine (sortOn_sorted _ events).imp fun {e e'} h => ?_
  rcases (Prod.Lex.toLex_le_toLex.mp h) with hlt | ⟨heq, -⟩
  · exact hlt.le
  · exact heq.le

/-- The snapshots up to a time. -/
def upTo (k : Int) (events : List BalanceSnapshotEvent) : List BalanceSnapshotEvent :=
  (sortedEvents events).filter (·.ts ≤ k)

/-- The samples of a curve. -/
def samples (event : CurveLoop → BalanceSnapshotEvent → CurveLoop) (events : List BalanceSnapshotEvent) : List Sample :=
  (times BalanceSnapshotEvent.ts (sortedEvents events)).map fun k => sampleOf (k, (upTo k events).foldl event {})

/-- The peak before the first sample. -/
def firstPeak (event : CurveLoop → BalanceSnapshotEvent → CurveLoop) (events : List BalanceSnapshotEvent) : ℚ :=
  match (sortedEvents events).head? with
  | some e => (event {} e).peak
  | none => 0

theorem buildBalanceCurves_eq (hblind : Blind event)
    (hfirst : ∀ e, (event {} e).hasBaseline = true ∧ (event {} e).stats = {}) (events : List BalanceSnapshotEvent) :
    buildBalanceCurves event events = ((samples event events).foldl draw ({}, firstPeak event events)).1 := by
  have hsamples : samples event events =
      (sampled event {} (runs BalanceSnapshotEvent.ts (sortedEvents events))).map sampleOf := by
    rw [sampled_runs (sortedEvents_ts events), List.map_map]
    rfl
  rw [hsamples, List.foldl_map, buildBalanceCurves, firstPeak, ← sortedEvents]
  cases sortedEvents events with
  | nil => rfl
  | cons e l =>
      obtain ⟨run, rest, hruns⟩ := runs_cons (g := BalanceSnapshotEvent.ts) e l
      obtain ⟨hbase, hstats⟩ := hfirst e
      have hdraws := hblind.draws hbase ((e.ts, run) :: rest) (event {} e).stats (event {} e).peak
      have hself : { event {} e with stats := (event {} e).stats, peak := (event {} e).peak } = event {} e := rfl
      rw [hself, hstats] at hdraws
      rw [hruns]
      exact hdraws

@[simp] theorem updateEquityDrawdown_curves (stats : EquityStats) (ts : Int) (equity peak : ℚ) :
    (updateEquityDrawdown stats ts equity peak).equityCurve = stats.equityCurve ∧
      (updateEquityDrawdown stats ts equity peak).profitCurve = stats.profitCurve := by
  simp only [updateEquityDrawdown]
  split_ifs <;> simp

theorem draw_curves (ss : List Sample) (pen : EquityStats × ℚ) :
    (ss.foldl draw pen).1.equityCurve = {
      xTime := pen.1.equityCurve.xTime ++ ss.map (fun s => s.1)
      yValue := pen.1.equityCurve.yValue ++ ss.map (fun s => s.2.1) } ∧
    (ss.foldl draw pen).1.profitCurve.yValue = pen.1.profitCurve.yValue ++ ss.map fun s => s.2.1 - s.2.2 := by
  induction ss generalizing pen with
  | nil => simp
  | cons s ss ih =>
      rw [List.foldl_cons, (ih _).1, (ih _).2]
      simp [draw, appendEquitySample, TradeChartData.push]

/-- Different samples make different curves. -/
theorem samples_inj {ss ss' : List Sample} {peak peak' : ℚ}
    (h : (ss.foldl draw ({}, peak)).1 = (ss'.foldl draw ({}, peak')).1) : ss = ss' := by
  have hequity := congrArg EquityStats.equityCurve h
  have hprofit := congrArg (fun stats => stats.profitCurve.yValue) h
  simp only [(draw_curves _ _).1, (draw_curves _ _).2, List.nil_append, TradeChartData.mk.injEq] at hequity hprofit
  clear h
  induction ss generalizing ss' with
  | nil => simpa using hequity.1.symm
  | cons s ss ih =>
      cases ss' with
      | nil => simp at hequity
      | cons s' ss' =>
          simp only [List.map_cons, List.cons.injEq] at hequity hprofit
          obtain ⟨ts, equity, baseline⟩ := s
          obtain ⟨ts', equity', baseline'⟩ := s'
          obtain ⟨⟨hts, htss⟩, heq, heqs⟩ := hequity
          have hbaseline : baseline = baseline' := by
            simp only at hprofit heq
            linarith [hprofit.1]
          have hss : ss = ss' := ih ⟨htss, heqs⟩ hprofit.2
          simp only at hts heq
          rw [hts, heq, hbaseline, hss]

/-! ## Record balances -/

section Record

variable (config) in
theorem blind_record : Blind (recordBalanceEvent config) := by
  intro loop e hloop
  simp [recordBalanceEvent, hloop]

variable (config) in
/-- A record curve has the balance of the last snapshot over that before the first one. -/
theorem foldl_record (l : List BalanceSnapshotEvent) :
    let state := l.foldl (recordBalanceEvent config) {}
    state.hasBaseline = !l.isEmpty ∧ state.baseline = (l.head?.map (initialBalanceForEvent config)).getD 0 ∧
      state.equity = (l.getLast?.map (closeBalanceOf config)).getD 0 := by
  induction l using List.reverseRecOn with
  | nil => exact ⟨rfl, rfl, rfl⟩
  | append_singleton l e ih =>
      obtain ⟨hbase, hbaseline, -⟩ := ih
      have hlast : (l ++ [e]).getLast? = some e := by simp
      simp only [List.foldl_append, hlast]
      cases l with
      | nil => simp [recordBalanceEvent]
      | cons e' l => simp_all [recordBalanceEvent]

end Record

/-! ## Portfolio balances -/

section Portfolio

variable (config) in
theorem blind_portfolio : Blind (portfolioBalanceEvent config) := by
  intro loop e hloop
  simp only [portfolioBalanceEvent]
  cases loop.accountBalances.find? e.account <;> simp [hloop]

/-- The balance before the first snapshot of each account. -/
def openings (config : TradeStatsConfig Zone) (l : List BalanceSnapshotEvent) : OrderedMap AccountKey ℚ :=
  l.foldl (fun m e => m.emplace e.account (initialBalanceForEvent config e)) .empty

theorem openings_append (l : List BalanceSnapshotEvent) (e : BalanceSnapshotEvent) :
    openings config (l ++ [e]) = (openings config l).emplace e.account (initialBalanceForEvent config e) := by
  simp [openings]

theorem find?_openings (l : List BalanceSnapshotEvent) (account : AccountKey) :
    (openings config l).find? account =
      ((l.filter (·.account = account)).head?.map (initialBalanceForEvent config)) := by
  induction l using List.reverseRecOn with
  | nil => rfl
  | append_singleton l e ih =>
      rw [openings_append, List.filter_append]
      cases hfind : (openings config l).find? e.account with
      | none =>
          rw [OrderedMap.find?_emplace hfind, ih]
          by_cases he : account = e.account
          · subst he
            have hnone : l.filter (·.account = e.account) = [] := by simpa [ih] using hfind
            simp [hnone]
          · simp [he, Ne.symm he]
      | some opening =>
          rw [OrderedMap.emplace_of_some hfind, ih]
          by_cases he : account = e.account
          · subst he
            cases hl : l.filter (·.account = e.account) with
            | nil => simp [ih, hl] at hfind
            | cons e' own => simp
          · simp [Ne.symm he]

/-- A portfolio curve has the sum of the last balances over that of the first ones. -/
structure PortfolioState (config : TradeStatsConfig Zone) (l : List BalanceSnapshotEvent) (loop : CurveLoop) : Prop where
  balances : ∀ account, loop.accountBalances.find? account =
    (l.filter (·.account = account)).getLast?.map (closeBalanceOf config)
  equity : loop.equity = loop.accountBalances.sumOf id
  baseline : loop.baseline = (openings config l).sumOf id

theorem find?_set_last {m : OrderedMap AccountKey ℚ} {l : List BalanceSnapshotEvent} {old : ℚ}
    (hfind : m.find? e.account = some old)
    (h : ∀ account, account ≠ e.account →
      m.find? account = (l.filter (·.account = account)).getLast?.map (closeBalanceOf config)) (account : AccountKey) :
    (m.set e.account (closeBalanceOf config e)).find? account =
      ((l ++ [e]).filter (·.account = account)).getLast?.map (closeBalanceOf config) := by
  rw [OrderedMap.find?_set hfind, List.filter_append]
  by_cases ha : account = e.account
  · subst ha
    simp
  · rw [if_neg ha, h account ha]
    simp [Ne.symm ha]

theorem PortfolioState.next {l : List BalanceSnapshotEvent} (h : PortfolioState config l loop) (e : BalanceSnapshotEvent) :
    PortfolioState config (l ++ [e]) (portfolioBalanceEvent config loop e) := by
  have hopening : (openings config l).find? e.account = none ↔ loop.accountBalances.find? e.account = none := by
    simp [find?_openings, h.balances]
  cases hfind : loop.accountBalances.find? e.account with
  | some old =>
      obtain ⟨opening, hopen⟩ : ∃ opening, (openings config l).find? e.account = some opening :=
        Option.ne_none_iff_exists'.mp fun hnone => by simp [hopening.mp hnone] at hfind
      have hsum := OrderedMap.sumOf_set hfind (closeBalanceOf config e) id
      simp only [id] at hsum
      constructor
      case balances =>
        simpa [portfolioBalanceEvent, hfind] using find?_set_last hfind fun account _ => h.balances account
      case equity =>
        simp only [portfolioBalanceEvent, hfind, Option.getD_some, h.equity]
        linarith
      case baseline =>
        rw [openings_append, OrderedMap.emplace_of_some hopen]
        simp [portfolioBalanceEvent, hfind, h.baseline]
  | none =>
      have hadded := OrderedMap.find?_emplace hfind (initialBalanceForEvent config e)
      have hsum := OrderedMap.sumOf_set (by simpa using hadded e.account) (closeBalanceOf config e) id
      have hemplace := OrderedMap.sumOf_emplace hfind (initialBalanceForEvent config e) id
      simp only [id] at hsum hemplace
      constructor
      case balances =>
        simpa [portfolioBalanceEvent, hfind, hadded] using find?_set_last (by simpa using hadded e.account)
          fun account ha => by rw [hadded, if_neg ha, h.balances]
      case equity =>
        simp only [portfolioBalanceEvent, hfind, hadded, if_true, Option.getD_some, h.equity]
        linarith
      case baseline =>
        rw [openings_append, OrderedMap.sumOf_emplace (hopening.mpr hfind)]
        simp [portfolioBalanceEvent, hfind, h.baseline, add_comm]

variable (config) in
theorem foldl_portfolio (l : List BalanceSnapshotEvent) :
    PortfolioState config l (l.foldl (portfolioBalanceEvent config) {}) := by
  induction l using List.reverseRecOn with
  | nil => exact ⟨fun _ => rfl, rfl, rfl⟩
  | append_singleton l e ih =>
      rw [List.foldl_append]
      exact ih.next e

end Portfolio

end OptionX.Records.TradeStatsCalculator
