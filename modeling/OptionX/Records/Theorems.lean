import OptionX.Records.Lemmas.Binary
import OptionX.Records.Lemmas.LocalDays
import OptionX.Records.Lemmas.TradeMetaStats
import OptionX.Records.Lemmas.TradeRecordQuery
import OptionX.Records.Lemmas.TradeRecordStatusFixer
import OptionX.Records.Lemmas.TradeStatsSeries
import OptionX.Records.Lemmas.TradeStatsTies
import OptionX.Storage.Theorems

/-!
# Queries and statistics over trade records
-/

namespace OptionX.Records

variable {F : Type}

namespace TradeRecordStatusFixer

/-- The correction as the close times promise it: it marks the pending records that are overdue and no others, and once
is enough. `planned` is the close time of a record. -/
def Exact (planned : TradeRecord F → Int) (waitStatusMs : Int) (records : List (TradeRecord F)) : Prop :=
  List.Forall₂ (fun r r' =>
      (isPending r.tradeState = true ∧ Overdue waitStatusMs records (planned r) → r' = r.withCheckError) ∧
      (¬ (isPending r.tradeState = true ∧ Overdue waitStatusMs records (planned r)) → r' = r))
    records (fixStaleStatuses waitStatusMs records) ∧
  fixStaleStatuses waitStatusMs (fixStaleStatuses waitStatusMs records) = fixStaleStatuses waitStatusMs records

/-- The correction marks pending records only and changes nothing but their state. Of the records whose duration in
milliseconds fits its 32 bits and whose known close date is not passed over for the duration, it marks exactly the
pending ones that know of a close time and are overdue by it. Where no close date is passed over, a second correction
changes nothing. -/
theorem marks_overdue (waitStatusMs : Int) (records : List (TradeRecord F)) (hwait : 0 ≤ waitStatusMs)
    (hdates : ∀ r ∈ records, 0 ≤ r.openDate ∧ 0 ≤ r.closeDate) :
    List.Forall₂ (fun r r' => (r' = r ∨ isPending r.tradeState = true ∧ r' = r.withCheckError) ∧
        (¬ FallsThrough (maxCloseDate records - waitStatusMs) r → ¬ Wraps r →
          (isPending r.tradeState = true ∧
            (∃ planned, r.plannedClose? = some planned ∧ Overdue waitStatusMs records planned) → r' = r.withCheckError) ∧
          (¬ (isPending r.tradeState = true ∧
            ∃ planned, r.plannedClose? = some planned ∧ Overdue waitStatusMs records planned) → r' = r)))
      records (fixStaleStatuses waitStatusMs records) ∧
    ((∀ r ∈ records, ¬ FallsThrough (maxCloseDate records - waitStatusMs) r) →
      fixStaleStatuses waitStatusMs (fixStaleStatuses waitStatusMs records) =
        fixStaleStatuses waitStatusMs records) := by
  refine ⟨?_, fixStaleStatuses_idem hwait⟩
  rw [fixStaleStatuses_eq _ _ hwait, List.forall₂_map_right_iff, List.forall₂_same]
  intro r hr
  obtain ⟨hopen, hclose⟩ := hdates r hr
  rw [fixRecord_eq]
  refine ⟨?_, fun hfalls hwraps => ?_⟩
  · split
    · next h => exact .inr ⟨h.1, rfl⟩
    · exact .inl rfl
  · have hstale : isPending r.tradeState = true ∧
        (∃ planned, r.plannedClose? = some planned ∧ Overdue waitStatusMs records planned) ↔
        isPending r.tradeState = true ∧ shouldCheckError (maxCloseDate records - waitStatusMs) r = true := by
      refine and_congr_right fun hpending => ?_
      rw [shouldCheckError_exact hopen hclose hpending hfalls hwraps]
      refine exists_congr fun planned => and_congr_right fun hplanned => ?_
      exact overdue_iff (plannedClose?_nonneg hopen hclose hplanned) hwait
    rw [hstale]
    exact ⟨fun h => if_pos h, fun h => if_neg h⟩

/-- A trade without dates beside a closed one. -/
def undatedRecords : List (TradeRecord ℚ) :=
  [{ TradeRecord.blank ℚ with tradeState := .win, closeDate := 1000000 },
    { TradeRecord.blank ℚ with tradeState := .inProgress }]

theorem marks_overdue_undated :
    fixStaleStatuses 100000 undatedRecords = undatedRecords ∧
      fixStaleStatuses 100000 (fixStaleStatuses 100000 undatedRecords) = fixStaleStatuses 100000 undatedRecords := by
  have hkept : fixStaleStatuses 100000 undatedRecords = undatedRecords := by decide
  have hfalls : ∀ r ∈ undatedRecords, ¬ FallsThrough (maxCloseDate undatedRecords - 100000) r := by
    simp [undatedRecords, FallsThrough, TradeRecord.blank, isPending]
  exact ⟨hkept, (marks_overdue 100000 undatedRecords (by decide) (by decide)).2 hfalls⟩

/-- A record without an open date and without a duration is not taken for one that closed at time zero. -/
theorem undated_not_marked : ¬ ∀ (waitStatusMs : Int) (records : List (TradeRecord ℚ)),
    0 ≤ waitStatusMs → waitStatusMs ≤ 2 ^ 62 →
    (∀ r ∈ records, (0 ≤ r.openDate ∧ r.openDate ≤ 2 ^ 62) ∧ 0 ≤ r.closeDate ∧ r.closeDate ≤ 2 ^ 62) →
    Exact (fun r => if r.closeDate ≠ 0 then r.closeDate else r.openDate + r.duration.toNat * 1000)
      waitStatusMs records := by
  intro h
  have hexact := (h 100000 undatedRecords (by decide) (by decide) (by decide)).1
  have hkept : fixStaleStatuses 100000 undatedRecords = undatedRecords := by decide
  rw [hkept, List.forall₂_same] at hexact
  have hmarked := (hexact { TradeRecord.blank ℚ with tradeState := .inProgress } (by decide)).1 ⟨rfl, by
    rw [overdue_iff (by decide) (by decide)]
    decide⟩
  revert hmarked
  decide

end TradeRecordStatusFixer

namespace Binary

/-- The binary forms of trade records and of signal records are exact: records that fit are read back as they were
written, nothing is read from a part of a text or from a text that goes on, and every text that is accepted is the one
that is written for the record read from it. -/
theorem codecs_faithful :
    Lib.Codec.Faithful TradeRecord.Fits TradeRecord.toBytes TradeRecord.fromBytes ∧
    Lib.Codec.Faithful SignalRecord.Fits SignalRecord.toBytes SignalRecord.fromBytes :=
  ⟨TradeRecord.agrees.faithful _, SignalRecord.agrees.faithful _⟩

end Binary

/-- The time library in the first days of 1970, with no zone but UTC. -/
def epochDay : TimeShield Unit :=
  { msToMin := (· / 60000)
    msToSec := (· / 1000)
    toDateTime := fun ts =>
      { day := ts / 86400 + 1, mon := 1, hour := ts / 3600 % 24, min := ts / 60 % 60, sec := ts % 60 }
    weekdayOfTs := fun ts => (ts / 86400 + 4) % 7
    minTimestampMs := 0
    maxTimestampMs := 30 * 86400000
    zoneOffsetAtUtcMs := fun _ _ => some 0
    zoneToGmtMs := fun _ ts => some ts }

namespace TradeTable

open Lib (OrderedMap)
open Storage (makeCompositeKey)
open TradeTimeZone (maxInt64)

/-- What every call leaves behind is coherent. -/
theorem coherent_run {Zone : Type} {shield : TimeShield Zone} {table : TradeTable F}
    (es : List Storage.TradeRecordDB.Event)
    (h : Represents table (Lib.Run.exec (Storage.TradeRecordDB.step shield.msToMin) {} es))
    (hbounds : ∀ r ∈ table.values, r.selectedTimestampMs ≤ maxInt64) : Coherent shield table :=
  coherent_of_keyed (Storage.TradeRecordDB.keyed_run shield.msToMin es) h hbounds

/-- A query gives a part of one list: all stored records of its range that pass its filter, in its order. The part
begins at the offset and ends with the limit, so that pages of any size make up the list. A range and a timestamp give
exactly the records whose selected timestamp they name, in ascending order. -/
theorem queries_exact {Zone : Type} (shield : TimeShield Zone) [LT F] [DecidableLT F] (table : TradeTable F)
    (hmono : Monotone shield.msToMin) (h : Coherent shield table) :
    (∀ query : TradeRecordQuery F Zone, Admissible table query → (query.rangeMode ≠ .none → Bounded table query) →
      ∃ all, all.Perm (table.values.filter (requested shield query)) ∧ Ordered query all ∧
        findRecords shield table query = page query.offset query.limit all ∧
        ∀ size count, 0 < size → all.length ≤ count * size →
          ((List.range count).flatMap fun i =>
            findRecords shield table { query with offset := i * size, limit := size }) = all) ∧
    (∀ startMs stopMs, 0 ≤ startMs → startMs ≤ stopMs →
      ∃ records, findRange shield table startMs stopMs = .ok records ∧
        records.Pairwise (Precedes TradeRecord.selectedTimestampMs) ∧
        ∀ r, r ∈ records ↔ r ∈ table.values ∧ startMs ≤ r.selectedTimestampMs ∧ r.selectedTimestampMs ≤ stopMs) ∧
    (∀ timestampMs, 0 ≤ timestampMs →
      ∃ records, findByTimestamp shield table timestampMs = .ok records ∧
        records.Pairwise (Precedes TradeRecord.selectedTimestampMs) ∧
        ∀ r, r ∈ records ↔ r ∈ table.values ∧ r.selectedTimestampMs = timestampMs) := by
  refine ⟨fun query ha hb => ?_, fun _ _ => findRange_eq hmono h, fun _ => findByTimestamp_eq h⟩
  refine ⟨sortRecords query (table.values.filter (requested shield query)), sortRecords_perm _,
    sortRecords_ordered (nodup_filter h _), findRecords_eq hmono h ha hb, fun size count hsize hlen => ?_⟩
  have hpage : ∀ i, findRecords shield table { query with offset := i * size, limit := size } =
      page (i * size) size (sortRecords query (table.values.filter (requested shield query))) := fun i =>
    findRecords_eq hmono h ⟨ha.stored, ha.expansion, ha.near⟩ fun hmode => ⟨(hb hmode).nonzero, (hb hmode).placed⟩
  simp only [hpage]
  rw [flatMap_page size hsize, List.take_of_length_le hlen]

/-- One record a minute, the later one sent ten seconds after it was placed. -/
def twoRecords : TradeTable ℚ :=
  let first := { TradeRecord.blank ℚ with tradeId := 1, placeDate := 60000 }
  let second := { TradeRecord.blank ℚ with tradeId := 2, placeDate := 120000, sendDate := 130000 }
  ⟨[(makeCompositeKey 1 1, first), (makeCompositeKey 2 2, second)], by decide⟩

/-- The first record that was sent within thirty seconds. -/
def sentQuery : TradeRecordQuery ℚ Unit :=
  { startMs := 100000, stopMs := 130000, rangeMode := .closed, timeField := .sendDate, fixStaleStatus := false, limit := 1 }

theorem queries_exact_twoRecords : (findRecords epochDay twoRecords sentQuery).length = 1 := by
  have hmono : Monotone epochDay.msToMin := fun a b hab => Int.ediv_le_ediv (by decide) hab
  have hcoherent : Coherent epochDay twoRecords := ⟨by decide, by decide, by decide⟩
  obtain ⟨all, hperm, -, hfind, -⟩ := (queries_exact epochDay twoRecords hmono hcoherent).1 sentQuery
    ⟨rfl, by decide, fun _ => by decide⟩ fun _ => ⟨by decide, by decide⟩
  have hlen : all.length = 1 := hperm.length_eq.trans (by decide)
  rw [hfind, page, if_neg (by decide), List.length_take, List.length_drop, hlen]
  rfl

/-- A record that was sent but not placed. -/
def unplacedRecord : TradeTable ℚ :=
  ⟨[(makeCompositeKey 2 1, { TradeRecord.blank ℚ with tradeId := 1, sendDate := 120000 })], by decide⟩

/-- The first second of the place dates. -/
def placedQuery : TradeRecordQuery ℚ Unit :=
  { stopMs := 1000, rangeMode := .closed, timeField := .placeDate, fixStaleStatus := false }

/-- A range of place dates is scanned as it is: it misses a record that is stored under another date. -/
theorem unplaced_missed : ¬ ∀ (table : TradeTable ℚ) (query : TradeRecordQuery ℚ Unit),
    Coherent epochDay table → Admissible table query →
    ∃ all, all.Perm (table.values.filter (requested epochDay query)) ∧ Ordered query all ∧
      findRecords epochDay table query = page query.offset query.limit all := by
  intro hall
  obtain ⟨all, hperm, -, hfind⟩ := hall unplacedRecord placedQuery ⟨by decide, by decide, by decide⟩
    ⟨rfl, by decide, fun _ => by decide⟩
  have hlen : all.length = 1 := hperm.length_eq.trans (by decide)
  have hscan : forEachRange (startKey (startMin epochDay placedQuery)) (stopKey (stopMin epochDay placedQuery))
      unplacedRecord = [] := by decide
  have hnone : findRecords epochDay unplacedRecord placedQuery = [] := by
    rw [findRecords, hscan]
    simp [sortRecords, paginate, placedQuery]
  rw [hnone, show page placedQuery.offset placedQuery.limit all = all from rfl] at hfind
  rw [← hfind] at hlen
  exact absurd hlen (by decide)

end TradeTable

namespace TradeStatsCalculator

open Lib (OrderedMap)
open Lib.StableSort (sortOn_perm sortOn_sorted)
open TradeWinrateStats (counters)

variable {Zone : Type} {shield : TimeShield Zone} {config : TradeStatsConfig Zone} {records : List (TradeRecord ℚ)}

/-- The result time, the decision time and the trade id of an outcome. -/
def OutcomeEvent.order (event : OutcomeEvent) : Int ×ₗ Int ×ₗ UInt32 :=
  toLex (event.resultTs, toLex (event.decisionTs, event.tradeId))

/-- The statistics do not depend on the order of the records. The outcome counters add up over the platforms, the
currencies and the steps, and the series are the maximal runs of the outcomes in their own order. -/
structure InputOrderIrrelevant (shield : TimeShield Zone) (config : TradeStatsConfig Zone)
    (records : List (TradeRecord ℚ)) : Prop where
  same : ∀ records' : List (TradeRecord ℚ), records'.Perm records →
    TradeStatsCalculator.calc shield config records' = TradeStatsCalculator.calc shield config records
  platforms : let stats := TradeStatsCalculator.calc shield config records
    stats.byPlatform.sumOf counters = stats.total.counters
  currencies : let stats := TradeStatsCalculator.calc shield config records
    stats.byCurrency.sumOf counters = stats.total.counters
  mmSteps : let stats := TradeStatsCalculator.calc shield config records
    stats.byMmStep.sumOf counters = stats.total.counters
  series : ∃ events, events.Perm ((records.filter (hasOutcome shield config)).map makeOutcomeEvent) ∧
    (events.Pairwise fun e e' => e.order < e'.order) ∧
    (TradeStatsCalculator.calc shield config records).series = seriesOf events

/-- Keys in order, of trades that are told apart by their ids, are in strict order without the unique ids. -/
theorem order_lt {e e' : OutcomeEvent} (h : e.key ≤ e'.key) (hid : e.tradeId ≠ e'.tradeId) : e.order < e'.order := by
  simp only [OutcomeEvent.key, OutcomeEvent.order, Prod.Lex.toLex_le_toLex, Prod.Lex.toLex_lt_toLex] at h ⊢
  grind

theorem series_ordered (hids : (records.map TradeRecord.tradeId).Nodup) :
    ∃ events, events.Perm ((records.filter (hasOutcome shield config)).map makeOutcomeEvent) ∧
      (events.Pairwise fun e e' => e.order < e'.order) ∧
      (TradeStatsCalculator.calc shield config records).series = seriesOf events := by
  have hperm := sortOn_perm OutcomeEvent.key ((records.filter (hasOutcome shield config)).map makeOutcomeEvent)
  refine ⟨_, hperm, ?_, recountSeries_eq _⟩
  have hdistinct : (((records.filter (hasOutcome shield config)).map makeOutcomeEvent).map
      OutcomeEvent.tradeId).Nodup := by
    rw [List.map_map]
    exact hids.sublist (List.filter_sublist.map _)
  have hnodup := List.pairwise_map.mp ((hperm.map OutcomeEvent.tradeId).nodup_iff.mpr hdistinct)
  exact ((sortOn_sorted _ _).and hnodup).imp fun h => order_lt h.1 h.2

/-- The order of the records does not matter exactly where the balance snapshots are settled. -/
theorem inputOrderIrrelevant_iff (shield : TimeShield Zone) (config : TradeStatsConfig Zone)
    (records : List (TradeRecord ℚ)) (hids : (records.map TradeRecord.tradeId).Nodup) :
    InputOrderIrrelevant shield config records ↔ Settled shield config records := by
  have hsame : ∀ records' : List (TradeRecord ℚ), records'.Perm records → (_ ↔ _) := fun records' hperm =>
    calc_eq_iff shield config hperm ((hperm.map _).nodup_iff.mpr hids)
  rw [← equityOrderFree_iff]
  constructor
  · exact fun h records' hperm => (hsame records' hperm).mp (h.same records' hperm)
  · intro h
    exact ⟨fun records' hperm => (hsame records' hperm).mpr (h records' hperm), sumOf_winrateBy _, sumOf_winrateBy _,
      sumOf_winrateBy _, series_ordered hids⟩

/-- A win with the balances before and after it. -/
def closedTrade (tradeId : UInt32) (closeDate : Int) (closeBalance : ℚ) : TradeRecord ℚ :=
  { TradeRecord.blank ℚ with tradeId, closeDate, closeBalance, tradeState := .win, flags := 6 }

def recordMode : TradeStatsConfig Unit := { equityMode := .recordBalance }

theorem inputOrderIrrelevant_closedTrades :
    InputOrderIrrelevant epochDay recordMode [closedTrade 1 1000 100, closedTrade 2 2000 200] := by
  refine (inputOrderIrrelevant_iff epochDay recordMode _ (by decide)).mpr ?_
  have hsettled : RecordSettled recordMode
      (balanceEvents epochDay recordMode [closedTrade 1 1000 100, closedTrade 2 2000 200]) := ⟨by decide, by decide⟩
  exact hsettled

/-- Of two closes of one account at one moment, the balance curve takes the one that comes last in the input. -/
theorem tied_closes : ¬ ∀ (config : TradeStatsConfig Unit) (records : List (TradeRecord ℚ)),
    (records.map TradeRecord.tradeId).Nodup → InputOrderIrrelevant epochDay config records := by
  intro h
  have hsame := (h recordMode [closedTrade 1 1000 100, closedTrade 2 1000 200] (by decide)).same
  have hclose := (@recordSettled_of_orderFree _ recordMode epochDay _ rfl
    fun records' hperm => congrArg TradeStats.toEquityStats (hsame records' hperm)).close
  revert hclose
  decide

end TradeStatsCalculator

namespace TradeMetaStatsCalculator

open TradeStatsCalculator (hasOutcome)

variable {Zone : Type}

/-- The statistics of every dimension are those of parts of the base selection, without overlaps, and in the first five
dimensions the parts make up all of it. -/
structure BreaksDown (shield : TimeShield Zone) (config : TradeStatsConfig Zone) (records : List (TradeRecord ℚ)) :
    Prop where
  platforms : SharesOut shield config (platformConfigs shield config records) (fun _ => true) records
  accounts : SharesOut shield config (accountConfigs shield config records) (fun _ => true) records
  currencies : SharesOut shield config (currencyConfigs shield config records) (fun _ => true) records
  hours : SharesOut shield config (hourConfigs config) (fun _ => true) records
  weekdays : SharesOut shield config (weekdayConfigs config) (fun _ => true) records
  symbols : SharesOut shield config (symbolConfigs shield config records) (fun r => r.symbol ≠ "") records
  signals : SharesOut shield config (signalConfigs shield config records) (fun r => r.signalName ≠ "") records
  durations : SharesOut shield config (durationConfigs shield config records) (fun r => 0 < r.duration) records
  totals : let stats := TradeMetaStatsCalculator.calc shield config records
    ∀ parts ∈ [stats.platformStats, stats.accountStats, stats.currencyStats, stats.hourStats, stats.weekdayStats],
      (parts.map fun stats => stats.total.counters).sum =
        (TradeStatsCalculator.calc shield config records).total.counters

/-- Every record that is counted when the filter does not say which hours to include has a time, and its local hour is
one that the filter includes. -/
def HoursKept (shield : TimeShield Zone) (config : TradeStatsConfig Zone) (records : List (TradeRecord ℚ)) : Prop :=
  ∀ r ∈ records, hasOutcome shield (withFilter config fun f => { f with hours := f.hours.dropInclude }) r = true →
    0 < r.selectedTimestampMs ∧ (config.filter.hours.include = [] ∨
      UInt32.ofInt (config.timeZone.localDateTime shield r.selectedTimestampMs).hour ∈ config.filter.hours.include)

/-- The same of weekdays. -/
def WeekdaysKept (shield : TimeShield Zone) (config : TradeStatsConfig Zone) (records : List (TradeRecord ℚ)) : Prop :=
  ∀ r ∈ records, hasOutcome shield (withFilter config fun f => { f with weekdays := f.weekdays.dropInclude }) r = true →
    0 < r.selectedTimestampMs ∧ (config.filter.weekdays.include = [] ∨
      UInt32.ofInt (config.timeZone.localWeekday shield r.selectedTimestampMs) ∈ config.filter.weekdays.include)

/-- The statistics break down the base selection exactly where the lists of hours and of weekdays leave nothing out
that the breakdowns by them would count. -/
theorem breaksDown_iff (shield : TimeShield Zone) (hcivil : Civil shield) (config : TradeStatsConfig Zone)
    (records : List (TradeRecord ℚ)) :
    BreaksDown shield config records ↔ HoursKept shield config records ∧ WeekdaysKept shield config records := by
  constructor
  · intro h
    exact ⟨(hourClock hcivil config).kept_of_sharesOut h.hours,
      (weekdayClock hcivil config).kept_of_sharesOut h.weekdays⟩
  · rintro ⟨hhours, hweekdays⟩
    have hhour : ∀ r ∈ records, (hourConfigs config).countP (hasOutcome shield · r) =
        if hasOutcome shield config r = true then 1 else 0 := (hourClock hcivil config).countP_kept hhours
    have hweekday : ∀ r ∈ records, (weekdayConfigs config).countP (hasOutcome shield · r) =
        if hasOutcome shield config r = true then 1 else 0 := (weekdayClock hcivil config).countP_kept hweekdays
    constructor
    case platforms => exact sharesOut_of_countP fun r hr => by simpa using countP_platforms hr
    case accounts => exact sharesOut_of_countP fun r hr => by simpa using countP_accounts hr
    case currencies => exact sharesOut_of_countP fun r hr => by simpa using countP_currencies hr
    case hours => exact sharesOut_of_countP fun r hr => by simpa using hhour r hr
    case weekdays => exact sharesOut_of_countP fun r hr => by simpa using hweekday r hr
    case symbols => exact sharesOut_of_countP fun r hr => by simpa using countP_symbols hr
    case signals => exact sharesOut_of_countP fun r hr => by simpa using countP_signals hr
    case durations => exact sharesOut_of_countP fun r hr => by simpa using countP_durations hr
    case totals =>
      intro stats parts hparts
      simp only [List.mem_cons, List.not_mem_nil, or_false] at hparts
      rcases hparts with rfl | rfl | rfl | rfl | rfl
      · exact sum_counters fun r hr => countP_platforms hr
      · exact sum_counters fun r hr => countP_accounts hr
      · exact sum_counters fun r hr => countP_currencies hr
      · exact sum_counters hhour
      · exact sum_counters hweekday

theorem civil_epochDay : Civil epochDay :=
  ⟨fun ts => ⟨Int.emod_nonneg _ (by decide), Int.emod_lt_of_pos _ (by decide)⟩,
    fun ts => ⟨Int.emod_nonneg _ (by decide), Int.emod_lt_of_pos _ (by decide)⟩⟩

/-- A win at ten and one at eleven. -/
def twoWins : List (TradeRecord ℚ) :=
  [{ TradeRecord.blank ℚ with tradeId := 1, tradeState := .win, placeDate := 10 * 3600000 },
    { TradeRecord.blank ℚ with tradeId := 2, tradeState := .win, placeDate := 11 * 3600000 }]

theorem breaksDown_twoWins : BreaksDown epochDay {} twoWins :=
  (breaksDown_iff epochDay civil_epochDay {} twoWins).mpr ⟨by unfold HoursKept; decide, by unfold WeekdaysKept; decide⟩

/-- A filter on ten o'clock does not keep the win at eleven out of its hour. -/
theorem hour_left_out : ¬ ∀ (config : TradeStatsConfig Unit) (records : List (TradeRecord ℚ)),
    BreaksDown epochDay config records := by
  intro h
  have hcollected := (h { filter := { hours := { «include» := [10] } } } twoWins).hours.only
    { TradeRecord.blank ℚ with tradeId := 2, tradeState := .win, placeDate := 11 * 3600000 } (by simp [twoWins])
    { filter := { hours := { «include» := [11] } } }
    (List.mem_map.mpr ⟨11, by decide, rfl⟩) (Or.inl (by decide))
  exact absurd hcollected (by decide)

end TradeMetaStatsCalculator

namespace TradeTimeZone

open Lib.Clock (GreatestBoundary Partitions RunsOn)

/-- The day and hour queries never overflow. Days of a fixed offset partition the near instants, and its hours are the
last boundaries of its local time, exactly if the local days of these instants fit 64 bits. The days of a named zone are
a partition where its clock passes each midnight once, at the instant that is given for it, and, as long as no later
midnight is given for an earlier instant, only there; its hours are the last boundaries exactly where the clock runs on
through each hour. -/
theorem localDays_iff {Zone : Type} (shield : TimeShield Zone) :
    (∀ (timeZone : TradeTimeZone Zone) t, Int64 t →
      Checked.startOfLocalDayUtcMs shield t timeZone = .ok (timeZone.startOfLocalDayUtcMs shield t) ∧
      Checked.nextLocalDayStartUtcMs shield t timeZone = .ok (timeZone.nextLocalDayStartUtcMs shield t) ∧
      Checked.startOfLocalHourUtcMs shield t timeZone = .ok (timeZone.startOfLocalHourUtcMs shield t)) ∧
    (∀ offsetSec, (Partitions (dayStart shield (.fixedOffset offsetSec)) (dayNext shield (.fixedOffset offsetSec)) Near ∧
      ∀ t, Near t → GreatestBoundary (reading shield (.fixedOffset offsetSec)) msPerHour t
        (startOfLocalHourUtcMs shield t (.fixedOffset offsetSec : TradeTimeZone Zone))) ↔ DaysFit offsetSec) ∧
    ∀ zone a b, Supported shield zone a b →
      (CrossesMidnights shield zone (a - 3 * msPerDay) (b + 3 * msPerDay) →
        Partitions (dayStart shield (.named zone)) (dayNext shield (.named zone)) (Within a b)) ∧
      ((∀ m m', Midnight (a - 2 * msPerDay) (b + 2 * msPerDay) m → Midnight (a - 2 * msPerDay) (b + 2 * msPerDay) m' →
          m ≤ m' → instant shield (.named zone) m ≤ instant shield (.named zone) m') →
        Partitions (dayStart shield (.named zone)) (dayNext shield (.named zone)) (Within a b) →
        CrossesMidnights shield zone a b) ∧
      ((∀ t, Within (a - msPerHour) b t → RunsOn (reading shield (.named zone)) msPerHour t) →
        ∀ t, Within a b t → GreatestBoundary (reading shield (.named zone)) msPerHour t
          (startOfLocalHourUtcMs shield t (.named zone))) ∧
      ((∀ t, Within a b t → GreatestBoundary (reading shield (.named zone)) msPerHour t
          (startOfLocalHourUtcMs shield t (.named zone))) →
        ∀ t, Within (a + 1) b t → RunsOn (reading shield (.named zone)) msPerHour t) := by
  refine ⟨fun timeZone t ht => ⟨startOfLocalDayUtcMs_ok ht, nextLocalDayStartUtcMs_ok ht, startOfLocalHourUtcMs_ok ht⟩,
    fun offsetSec => fixed_iff, fun zone a b h => ⟨h.partitions, fun hmono hdays => h.crosses hmono hdays.within,
      fun hruns t ht => ?_, fun hhours t ht => ?_⟩⟩
  · rw [h.hour_eq ht]
    refine Lib.Clock.greatestBoundary msPerHour_pos fun s hlt hle => hruns s ?_
    have := Int.emod_lt_of_pos (reading shield (.named zone) t) msPerHour_pos
    unfold Lib.Clock.boundaryAt at hlt
    unfold Within at *
    omega
  · have hnow : Within a b t := ⟨by unfold Within at ht; omega, ht.2⟩
    have hbefore : Within a b (t - 1) := by
      unfold Within at *
      omega
    have hhour := hhours t hnow
    have hhour' := hhours (t - 1) hbefore
    rw [h.hour_eq hnow] at hhour
    rw [h.hour_eq hbefore] at hhour'
    exact Lib.Clock.runsOn hhour hhour'

/-- The zone without an offset resolves within the first thirty days. -/
theorem supported_epochDay : Supported epochDay () (5 * msPerDay) (20 * msPerDay) where
  near := by decide
  resolves :=
    { supported := by decide
      offset := fun t _ _ => ⟨0, rfl, by decide, by decide⟩
      instant := fun m _ _ => ⟨m, rfl, by unfold msPerDay; omega, by unfold msPerDay; omega⟩ }

theorem localDays_iff_epochDay : Partitions (dayStart epochDay (.named ())) (dayNext epochDay (.named ()))
    (Within (5 * msPerDay) (20 * msPerDay)) := by
  refine ((localDays_iff epochDay).2.2 () _ _ supported_epochDay).1 fun t m ht hm => ?_
  have hday : msPerDay = 86400000 := rfl
  have hreading : reading epochDay (.named ()) t = t := by
    obtain ⟨off, hoff, _, _, hreading⟩ := supported_epochDay.reads (show Within _ _ t by unfold Within at *; omega)
    have hresolved : (if isTimeShieldTimestamp epochDay t = true then some (0 : Int) else none) = some off := hoff
    split at hresolved
    · cases hresolved
      rw [hreading]
      omega
    · cases hresolved
  have hinstant : instant epochDay (.named ()) m = m := ite_self m
  rw [hreading, hinstant]

/-- An offset of 5 * 10^15 seconds fits in milliseconds, but the local time of the last near instant does not: it falls
back to UTC, and the way back still takes the offset away. -/
theorem farOffset_emptyDay : Int64 (5 * 10 ^ 15) ∧ Near (2 ^ 62) ∧
    ¬ 2 ^ 62 < dayNext epochDay (.fixedOffset (5 * 10 ^ 15)) (2 ^ 62) :=
  ⟨by decide, by unfold Near; decide, by decide⟩

end TradeTimeZone

end OptionX.Records
