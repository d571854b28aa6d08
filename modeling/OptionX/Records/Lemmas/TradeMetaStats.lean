import OptionX.Records.Lemmas.TradeStats
import OptionX.Records.TradeMetaStatsCalculator

/-!
# Lemmas on breakdowns

A breakdown by a value has one configuration for each value that is collected, and a record is counted by the one of
its own value. A breakdown by a component of the local time has a configuration for each number, whatever the filter
says of them, and a record without a time is counted by all.
-/

namespace OptionX.Records

open Lib (OrderedMap OrderedSet)

namespace IncludeExcludeFilter

variable {T : Type} [DecidableEq T] {filter : IncludeExcludeFilter T} {value v : T}

theorem accepts_only (h : filter.accepts v = true) :
    (filter.only v).accepts value = (decide (value = v) && filter.accepts value) := by
  by_cases hv : value = v
  · subst hv
    rw [h]
    simp only [accepts, Bool.and_eq_true] at h
    simp only [accepts, only, h.2]
    simp
  · simp [accepts, only, hv]

/-- Without the values that it includes. -/
def dropInclude (filter : IncludeExcludeFilter T) : IncludeExcludeFilter T := { filter with «include» := [] }

theorem accepts_only_drop : (filter.only v).accepts value = (decide (value = v) && filter.dropInclude.accepts value) := by
  simp [accepts, only, dropInclude]

theorem accepts_drop : filter.accepts value =
    ((filter.include.isEmpty || filter.include.contains value) && filter.dropInclude.accepts value) := by
  simp [accepts, dropInclude]

end IncludeExcludeFilter

open IncludeExcludeFilter (accepts_only accepts_only_drop accepts_drop)

theorem matchComponent_eq (filter : IncludeExcludeFilter UInt32) (component : Int) :
    matchComponent filter component = filter.accepts (UInt32.ofInt component) := by
  obtain ⟨included, excluded⟩ := filter
  cases included with
  | cons v included => simp [matchComponent, IncludeExcludeFilter.isEmpty]
  | nil => cases excluded <;> simp [matchComponent, IncludeExcludeFilter.isEmpty, IncludeExcludeFilter.accepts]

section Filters

variable {Zone : Type} {shield : TimeShield Zone} {filter : TradeRecordFilter ℚ} {tz : TradeTimeZone Zone}
  {r r₀ : TradeRecord ℚ}

/-- What passes a filter passes its lists of values. -/
theorem accepts_of_matchFilter (h : matchFilter shield r filter tz 0 = true) :
    filter.platforms.accepts r.platformType = true ∧ filter.accounts.accepts r.accountType = true ∧
    filter.currencies.accepts r.currency = true ∧ filter.symbols.accepts r.symbol = true ∧
    filter.signals.accepts r.signalName = true ∧ filter.durations.accepts r.duration = true := by
  simp only [matchFilter, matchFields, Bool.and_eq_true] at h
  simp [h]

theorem matchFilter_platforms (h : matchFilter shield r₀ filter tz 0 = true) :
    matchFilter shield r { filter with platforms := filter.platforms.only r₀.platformType } tz 0 =
      (decide (r.platformType = r₀.platformType) && matchFilter shield r filter tz 0) := by
  simp only [matchFilter, matchFields, matchLocalTime, accepts_only (accepts_of_matchFilter h).1, Bool.and_assoc]

theorem matchFilter_accounts (h : matchFilter shield r₀ filter tz 0 = true) :
    matchFilter shield r { filter with accounts := filter.accounts.only r₀.accountType } tz 0 =
      (decide (r.accountType = r₀.accountType) && matchFilter shield r filter tz 0) := by
  simp only [matchFilter, matchFields, matchLocalTime, accepts_only (accepts_of_matchFilter h).2.1, Bool.and_assoc,
    Bool.and_left_comm]

theorem matchFilter_currencies (h : matchFilter shield r₀ filter tz 0 = true) :
    matchFilter shield r { filter with currencies := filter.currencies.only r₀.currency } tz 0 =
      (decide (r.currency = r₀.currency) && matchFilter shield r filter tz 0) := by
  simp only [matchFilter, matchFields, matchLocalTime, accepts_only (accepts_of_matchFilter h).2.2.1, Bool.and_assoc,
    Bool.and_left_comm]

theorem matchFilter_symbols (h : matchFilter shield r₀ filter tz 0 = true) :
    matchFilter shield r { filter with symbols := filter.symbols.only r₀.symbol } tz 0 =
      (decide (r.symbol = r₀.symbol) && matchFilter shield r filter tz 0) := by
  simp only [matchFilter, matchFields, matchLocalTime, accepts_only (accepts_of_matchFilter h).2.2.2.1, Bool.and_assoc,
    Bool.and_left_comm]

theorem matchFilter_signals (h : matchFilter shield r₀ filter tz 0 = true) :
    matchFilter shield r { filter with signals := filter.signals.only r₀.signalName } tz 0 =
      (decide (r.signalName = r₀.signalName) && matchFilter shield r filter tz 0) := by
  simp only [matchFilter, matchFields, matchLocalTime, accepts_only (accepts_of_matchFilter h).2.2.2.2.1, Bool.and_assoc,
    Bool.and_left_comm]

theorem matchFilter_durations (h : matchFilter shield r₀ filter tz 0 = true) :
    matchFilter shield r { filter with durations := filter.durations.only r₀.duration } tz 0 =
      (decide (r.duration = r₀.duration) && matchFilter shield r filter tz 0) := by
  simp only [matchFilter, matchFields, matchLocalTime, accepts_only (accepts_of_matchFilter h).2.2.2.2.2, Bool.and_assoc,
    Bool.and_left_comm]

/-- Without a time, the components of the local time are not asked for. -/
theorem matchFilter_undated {hours weekdays : IncludeExcludeFilter UInt32} (hts : r.selectedTimestampMs ≤ 0) :
    matchFilter shield r { filter with hours, weekdays } tz 0 = matchFilter shield r filter tz 0 := by
  simp [matchFilter, matchFields, TradeRecord.localTimestampMs, not_lt.mpr hts]

theorem matchFilter_dated (hts : 0 < r.selectedTimestampMs) :
    matchFilter shield r filter tz 0 = (matchFields r filter && matchLocalTime shield filter tz r.selectedTimestampMs) := by
  simp [matchFilter, TradeRecord.localTimestampMs, hts]

/-- Of a record with a time, the list of hours asks for the hour and nothing else. -/
theorem matchFilter_hours {hours : IncludeExcludeFilter UInt32} (hts : 0 < r.selectedTimestampMs) :
    matchFilter shield r { filter with hours } tz 0 =
      (hours.accepts (UInt32.ofInt (tz.localDateTime shield r.selectedTimestampMs).hour) &&
        matchFilter shield r { filter with hours := {} } tz 0) := by
  have hlocal : ∀ ts, matchLocalTime shield { filter with hours } tz ts =
      (hours.accepts (UInt32.ofInt (tz.localDateTime shield ts).hour) &&
        matchLocalTime shield { filter with hours := {} } tz ts) := fun ts => by
    simp only [matchLocalTime, matchComponent_eq, Bool.and_assoc]
    rfl
  rw [matchFilter_dated hts, matchFilter_dated hts, hlocal, Bool.and_left_comm]
  rfl

theorem matchFilter_weekdays {weekdays : IncludeExcludeFilter UInt32} (hts : 0 < r.selectedTimestampMs) :
    matchFilter shield r { filter with weekdays } tz 0 =
      (weekdays.accepts (UInt32.ofInt (tz.localWeekday shield r.selectedTimestampMs)) &&
        matchFilter shield r { filter with weekdays := {} } tz 0) := by
  have hlocal : ∀ ts, matchLocalTime shield { filter with weekdays } tz ts =
      (weekdays.accepts (UInt32.ofInt (tz.localWeekday shield ts)) &&
        matchLocalTime shield { filter with weekdays := {} } tz ts) := fun ts => by
    simp only [matchLocalTime, matchComponent_eq, Bool.and_assoc, Bool.and_left_comm]
    rfl
  rw [matchFilter_dated hts, matchFilter_dated hts, hlocal, Bool.and_left_comm]
  rfl

end Filters

namespace TradeMetaStatsCalculator

open TradeStatsCalculator (hasOutcome hasResult includeSelected includeBySelection)
open TradeWinrateStats (outcome counters)

variable {Zone : Type} {shield : TimeShield Zone} {config : TradeStatsConfig Zone} {records : List (TradeRecord ℚ)}
  {r : TradeRecord ℚ} {configs : List (TradeStatsConfig Zone)} {own : TradeRecord ℚ → Bool}

/-- The records of the base selection that belong to a breakdown are counted by one entry each, the others by none. -/
structure SharesOut (shield : TimeShield Zone) (config : TradeStatsConfig Zone) (configs : List (TradeStatsConfig Zone))
    (own : TradeRecord ℚ → Bool) (records : List (TradeRecord ℚ)) : Prop where
  only : ∀ r ∈ records, ∀ cfg ∈ configs, hasOutcome shield cfg r = true ∨ hasResult shield cfg r = true →
    isCollected shield config r = true
  once : ∀ r ∈ records, hasOutcome shield config r = true → own r = true →
    configs.countP (hasOutcome shield · r) = 1

theorem isCollected_of_hasOutcome (h : hasOutcome shield config r = true) : isCollected shield config r = true := by
  simp only [hasOutcome, includeSelected, isCollected, Bool.and_eq_true] at h ⊢
  exact ⟨h.1.1.1, h.1.2⟩

theorem sharesOut_of_countP (h : ∀ r ∈ records,
    configs.countP (hasOutcome shield · r) = if hasOutcome shield config r = true ∧ own r = true then 1 else 0) :
    SharesOut shield config configs own records := by
  constructor
  case once =>
    intro r hr houtcome hown
    rw [h r hr, if_pos ⟨houtcome, hown⟩]
  case only =>
    intro r hr cfg hcfg hcounted
    have houtcome := hcounted.elim id TradeStatsCalculator.hasOutcome_of_hasResult
    have hpos : 0 < configs.countP (hasOutcome shield · r) := List.countP_pos_iff.mpr ⟨cfg, hcfg, houtcome⟩
    rw [h r hr] at hpos
    by_cases hbase : hasOutcome shield config r = true ∧ own r = true
    · exact isCollected_of_hasOutcome hbase.1
    · simp [hbase] at hpos

/-- Where the entries share out the base selection, their counters add up to its counters. -/
theorem sum_counters (h : ∀ r ∈ records,
    configs.countP (hasOutcome shield · r) = if hasOutcome shield config r = true then 1 else 0) :
    ((breakdown shield records configs).map fun stats => stats.total.counters).sum =
      (TradeStatsCalculator.calc shield config records).total.counters := by
  rw [breakdown, List.map_map]
  simp only [Function.comp_def, TradeStatsCalculator.calc, TradeStatsCalculator.counters_winrate]
  exact Lib.Tally.sum_parts h

/-! ## Breakdowns by a value -/

section Values

variable {κ : Type} [LinearOrder κ] {value : TradeRecord ℚ → Option κ} {change : κ → TradeRecordFilter ℚ → TradeRecordFilter ℚ}

theorem mem_valuesOf {v : κ} : v ∈ valuesOf shield config value records ↔
    ∃ r ∈ records, isCollected shield config r = true ∧ value r = some v := by
  simp [valuesOf, List.mem_filterMap, and_assoc]

theorem hasOutcome_withFilter (config : TradeStatsConfig Zone) (change : TradeRecordFilter ℚ → TradeRecordFilter ℚ)
    {b : Bool} (h : matchFilter shield r (change config.filter) config.timeZone 0 =
      (b && matchFilter shield r config.filter config.timeZone 0)) :
    hasOutcome shield (withFilter config change) r = (b && hasOutcome shield config r) := by
  have hselected : includeSelected shield (withFilter config change) r = (b && includeSelected shield config r) := by
    rw [includeSelected, includeSelected, ← Bool.and_assoc, ← h]
    rfl
  rw [hasOutcome, hselected, hasOutcome, Bool.and_assoc, Bool.and_assoc, Bool.and_assoc]
  rfl

variable (shield config value change) in
/-- One entry for each value, and each record with the entry of its own. -/
theorem countP_values (hsplit : ∀ r₀ v, isCollected shield config r₀ = true → value r₀ = some v → ∀ r,
      matchFilter shield r (change v config.filter) config.timeZone 0 =
        (decide (value r = some v) && matchFilter shield r config.filter config.timeZone 0))
    (hr : r ∈ records) :
    ((valuesOf shield config value records).map fun v => withFilter config (change v)).countP (hasOutcome shield · r) =
      if hasOutcome shield config r = true ∧ (value r).isSome = true then 1 else 0 := by
  have hentry : ∀ v ∈ valuesOf shield config value records,
      hasOutcome shield (withFilter config (change v)) r = (decide (value r = some v) && hasOutcome shield config r) := by
    intro v hv
    obtain ⟨r₀, -, hcollected, hvalue⟩ := mem_valuesOf.mp hv
    exact hasOutcome_withFilter config (change v) (hsplit r₀ v hcollected hvalue r)
  rw [List.countP_map, List.countP_congr (q := fun v => decide (value r = some v) && hasOutcome shield config r)
    fun v hv => by rw [Function.comp_apply, hentry v hv]]
  by_cases houtcome : hasOutcome shield config r = true
  · cases hvalue : value r with
    | none =>
        rw [if_neg (fun h => Bool.false_ne_true h.2), List.countP_eq_zero]
        exact fun v _ => Bool.false_ne_true
    | some v =>
        have hmem : v ∈ valuesOf shield config value records :=
          mem_valuesOf.mpr ⟨r, hr, isCollected_of_hasOutcome houtcome, hvalue⟩
        have hnodup : (valuesOf shield config value records).Nodup := OrderedMap.keys_nodup _
        rw [if_pos ⟨houtcome, rfl⟩, ← List.count_eq_one_of_mem hnodup hmem, List.count]
        refine List.countP_congr fun v' _ => ?_
        simp only [houtcome, Bool.and_true, decide_eq_true_eq, Option.some.injEq, beq_iff_eq]
        exact eq_comm
  · simp [houtcome]

end Values

theorem countP_platforms (hr : r ∈ records) : (platformConfigs shield config records).countP (hasOutcome shield · r) =
    if hasOutcome shield config r = true then 1 else 0 := by
  refine (countP_values shield config (fun r => some r.platformType)
    (fun pt f => { f with platforms := f.platforms.only pt }) (fun r₀ v hcollected hv r => ?_) hr).trans (by simp)
  obtain rfl := Option.some.inj hv
  rw [matchFilter_platforms (Bool.and_eq_true_iff.mp hcollected).1]
  simp

theorem countP_accounts (hr : r ∈ records) : (accountConfigs shield config records).countP (hasOutcome shield · r) =
    if hasOutcome shield config r = true then 1 else 0 := by
  refine (countP_values shield config (fun r => some r.accountType)
    (fun account f => { f with accounts := f.accounts.only account }) (fun r₀ v hcollected hv r => ?_) hr).trans (by simp)
  obtain rfl := Option.some.inj hv
  rw [matchFilter_accounts (Bool.and_eq_true_iff.mp hcollected).1]
  simp

theorem countP_currencies (hr : r ∈ records) : (currencyConfigs shield config records).countP (hasOutcome shield · r) =
    if hasOutcome shield config r = true then 1 else 0 := by
  refine (countP_values shield config (fun r => some r.currency)
    (fun ct f => { f with currencies := f.currencies.only ct }) (fun r₀ v hcollected hv r => ?_) hr).trans (by simp)
  obtain rfl := Option.some.inj hv
  rw [matchFilter_currencies (Bool.and_eq_true_iff.mp hcollected).1]
  simp

section Optional

variable {T : Type} [DecidableEq T] {x y v : T} (present : T → Prop) [DecidablePred present]

omit [DecidableEq T] in
theorem optional_some (h : (if present x then some x else none) = some v) : present x ∧ x = v := by
  split at h
  · next hpresent => exact ⟨hpresent, Option.some.inj h⟩
  · cases h

theorem optional_eq (h : present x) :
    decide ((if present y then some y else none) = some x) = decide (y = x) := by
  by_cases hy : y = x
  · subst hy
    simp [h]
  · simp [hy]

end Optional

theorem countP_symbols (hr : r ∈ records) : (symbolConfigs shield config records).countP (hasOutcome shield · r) =
    if hasOutcome shield config r = true ∧ r.symbol ≠ "" then 1 else 0 := by
  refine (countP_values shield config (fun r => if r.symbol ≠ "" then some r.symbol else none)
    (fun sym f => { f with symbols := f.symbols.only sym }) (fun r₀ v hcollected hv r => ?_) hr).trans (by simp)
  obtain ⟨hpresent, rfl⟩ := optional_some (· ≠ "") hv
  rw [matchFilter_symbols (Bool.and_eq_true_iff.mp hcollected).1, optional_eq (· ≠ "") hpresent]

theorem countP_signals (hr : r ∈ records) : (signalConfigs shield config records).countP (hasOutcome shield · r) =
    if hasOutcome shield config r = true ∧ r.signalName ≠ "" then 1 else 0 := by
  refine (countP_values shield config (fun r => if r.signalName ≠ "" then some r.signalName else none)
    (fun sig f => { f with signals := f.signals.only sig }) (fun r₀ v hcollected hv r => ?_) hr).trans (by simp)
  obtain ⟨hpresent, rfl⟩ := optional_some (· ≠ "") hv
  rw [matchFilter_signals (Bool.and_eq_true_iff.mp hcollected).1, optional_eq (· ≠ "") hpresent]

theorem countP_durations (hr : r ∈ records) : (durationConfigs shield config records).countP (hasOutcome shield · r) =
    if hasOutcome shield config r = true ∧ 0 < r.duration then 1 else 0 := by
  refine (countP_values shield config (fun r => if 0 < r.duration then some r.duration else none)
    (fun dur f => { f with durations := f.durations.only dur }) (fun r₀ v hcollected hv r => ?_) hr).trans (by simp)
  obtain ⟨hpresent, rfl⟩ := optional_some (0 < ·) hv
  rw [matchFilter_durations (Bool.and_eq_true_iff.mp hcollected).1, optional_eq (0 < ·) hpresent]

/-! ## Breakdowns by the local time -/

/-- A component of the local time that a filter has a list for. -/
structure Clock (shield : TimeShield Zone) (config : TradeStatsConfig Zone) where
  size : Nat
  component : TradeRecord ℚ → Int
  asked : IncludeExcludeFilter UInt32
  put : IncludeExcludeFilter UInt32 → TradeRecordFilter ℚ
  size_pos : 1 < size
  size_le : size ≤ 2 ^ 32
  bounds : ∀ r, 0 ≤ component r ∧ component r < size
  put_asked : put asked = config.filter
  undated : ∀ r list, r.selectedTimestampMs ≤ 0 →
    matchFilter shield r (put list) config.timeZone 0 = matchFilter shield r config.filter config.timeZone 0
  dated : ∀ r list, 0 < r.selectedTimestampMs → matchFilter shield r (put list) config.timeZone 0 =
    (list.accepts (UInt32.ofInt (component r)) && matchFilter shield r (put {}) config.timeZone 0)

namespace Clock

variable (clock : Clock shield config)

/-- The entries of a breakdown. -/
def entries : List (TradeStatsConfig Zone) :=
  (List.range clock.size).map fun i => { config with filter := clock.put (clock.asked.only (UInt32.ofNat i)) }

/-- The configuration whatever the component is, unless it is excluded. -/
def unasked : TradeStatsConfig Zone := { config with filter := clock.put clock.asked.dropInclude }

/-- What is counted whatever the component is has a time, and the filter includes the component. -/
def Kept (records : List (TradeRecord ℚ)) : Prop :=
  ∀ r ∈ records, hasOutcome shield clock.unasked r = true → 0 < r.selectedTimestampMs ∧
    (clock.asked.include = [] ∨ UInt32.ofInt (clock.component r) ∈ clock.asked.include)

theorem hasOutcome_undated (list : IncludeExcludeFilter UInt32) (hts : r.selectedTimestampMs ≤ 0) :
    hasOutcome shield { config with filter := clock.put list } r = hasOutcome shield config r := by
  have h := clock.undated r list hts
  exact (hasOutcome_withFilter config (fun _ => clock.put list) (h.trans (Bool.true_and _).symm)).trans (Bool.true_and _)

theorem hasOutcome_dated (list : IncludeExcludeFilter UInt32) (hts : 0 < r.selectedTimestampMs) :
    hasOutcome shield { config with filter := clock.put list } r =
      (list.accepts (UInt32.ofInt (clock.component r)) && hasOutcome shield { config with filter := clock.put {} } r) :=
  hasOutcome_withFilter { config with filter := clock.put {} } (fun _ => clock.put list) (clock.dated r list hts)

theorem hasOutcome_entry (hts : 0 < r.selectedTimestampMs) (i : Nat) :
    hasOutcome shield { config with filter := clock.put (clock.asked.only (UInt32.ofNat i)) } r =
      (decide (UInt32.ofInt (clock.component r) = UInt32.ofNat i) && hasOutcome shield clock.unasked r) := by
  rw [hasOutcome_dated, accepts_only_drop, unasked, hasOutcome_dated clock clock.asked.dropInclude hts, Bool.and_assoc]
  exact hts

theorem hasOutcome_base (hts : 0 < r.selectedTimestampMs) :
    hasOutcome shield config r = ((clock.asked.include.isEmpty ||
      clock.asked.include.contains (UInt32.ofInt (clock.component r))) && hasOutcome shield clock.unasked r) := by
  have hself : config = { config with filter := clock.put clock.asked } := by rw [clock.put_asked]
  rw [unasked, hasOutcome_dated clock _ hts, ← Bool.and_assoc, ← accepts_drop, ← hasOutcome_dated clock _ hts, ← hself]

theorem ofInt_component (r : TradeRecord ℚ) : UInt32.ofInt (clock.component r) = UInt32.ofNat (clock.component r).toNat ∧
    (clock.component r).toNat < clock.size := by
  have hbounds := clock.bounds r
  have hsize := clock.size_le
  refine ⟨?_, by omega⟩
  rw [UInt32.ofInt, Int.emod_eq_of_lt hbounds.1 (by omega)]

variable {clock}

theorem countP_dated (hts : 0 < r.selectedTimestampMs) (h : hasOutcome shield clock.unasked r = true) :
    clock.entries.countP (hasOutcome shield · r) = 1 := by
  obtain ⟨hcomponent, hlt⟩ := clock.ofInt_component r
  have hsize := clock.size_le
  rw [entries, List.countP_map, ← List.count_eq_one_of_mem List.nodup_range (List.mem_range.mpr hlt), List.count]
  refine List.countP_congr fun i hi => ?_
  have hi := List.mem_range.mp hi
  rw [Function.comp_apply, hasOutcome_entry clock hts, h, Bool.and_true, decide_eq_true_eq, hcomponent, beq_iff_eq,
    ← UInt32.toNat_inj, UInt32.toNat_ofNat', UInt32.toNat_ofNat', Nat.mod_eq_of_lt (by omega), Nat.mod_eq_of_lt (by omega)]
  exact eq_comm

theorem countP_unasked (h : hasOutcome shield clock.unasked r = false) :
    clock.entries.countP (hasOutcome shield · r) = 0 ∧ hasOutcome shield config r = false := by
  rw [entries, List.countP_map, List.countP_eq_zero]
  rcases lt_or_ge 0 r.selectedTimestampMs with hts | hts
  · refine ⟨fun i _ => ?_, ?_⟩
    · rw [Function.comp_apply, hasOutcome_entry clock hts, h, Bool.and_false]
      exact Bool.false_ne_true
    · rw [hasOutcome_base clock hts, h, Bool.and_false]
  · rw [unasked, hasOutcome_undated clock _ hts] at h
    refine ⟨fun i _ => ?_, h⟩
    rw [Function.comp_apply, hasOutcome_undated clock _ hts, h]
    exact Bool.false_ne_true

variable (clock) in
/-- Where the filter keeps what is counted without it, each record of the base selection has one entry. -/
theorem countP_kept (h : clock.Kept records) : ∀ r ∈ records,
    clock.entries.countP (hasOutcome shield · r) = if hasOutcome shield config r = true then 1 else 0 := by
  intro r hr
  cases hcounted : hasOutcome shield clock.unasked r with
  | false =>
      obtain ⟨hnone, hbase⟩ := countP_unasked hcounted
      rw [hnone, hbase, if_neg Bool.false_ne_true]
  | true =>
      obtain ⟨hts, hkept⟩ := h r hr hcounted
      rw [countP_dated hts hcounted, hasOutcome_base clock hts, hcounted, if_pos]
      rcases hkept with hnil | hmem
      · simp [hnil]
      · simp [hmem]

variable (clock) in
theorem kept_of_sharesOut (h : SharesOut shield config clock.entries (fun _ => true) records) : clock.Kept records := by
  intro r hr hcounted
  rcases lt_or_ge 0 r.selectedTimestampMs with hts | hts
  · refine ⟨hts, ?_⟩
    obtain ⟨cfg, hcfg, houtcome⟩ := List.countP_pos_iff.mp (by rw [countP_dated hts hcounted]; exact Nat.one_pos)
    have hcollected := h.only r hr cfg hcfg (Or.inl houtcome)
    have hbase := (Bool.and_eq_true_iff.mp hcollected).1
    rw [← clock.put_asked, clock.dated r _ hts, accepts_drop] at hbase
    simp only [Bool.and_eq_true] at hbase
    simpa using hbase.1.1
  · -- without a time, all entries count the record
    rw [unasked, hasOutcome_undated clock _ hts] at hcounted
    have honce := h.once r hr hcounted rfl
    have hall : clock.entries.countP (hasOutcome shield · r) = clock.size := by
      rw [entries, List.countP_map, List.countP_eq_length.mpr, List.length_range]
      intro i _
      rw [Function.comp_apply, hasOutcome_undated clock _ hts, hcounted]
    have := clock.size_pos
    omega

end Clock

/-- Hours are those of a day, and weekdays those of a week. -/
structure Civil (shield : TimeShield Zone) : Prop where
  hour : ∀ ts, 0 ≤ (shield.toDateTime ts).hour ∧ (shield.toDateTime ts).hour < 24
  weekday : ∀ ts, 0 ≤ shield.weekdayOfTs ts ∧ shield.weekdayOfTs ts < 7

def hourClock (hcivil : Civil shield) (config : TradeStatsConfig Zone) : Clock shield config where
  size := 24
  component r := (config.timeZone.localDateTime shield r.selectedTimestampMs).hour
  asked := config.filter.hours
  put list := { config.filter with hours := list }
  size_pos := by decide
  size_le := by decide
  bounds _ := hcivil.hour _
  put_asked := rfl
  undated _ _ hts := matchFilter_undated hts
  dated _ _ hts := matchFilter_hours hts

def weekdayClock (hcivil : Civil shield) (config : TradeStatsConfig Zone) : Clock shield config where
  size := 7
  component r := config.timeZone.localWeekday shield r.selectedTimestampMs
  asked := config.filter.weekdays
  put list := { config.filter with weekdays := list }
  size_pos := by decide
  size_le := by decide
  bounds _ := hcivil.weekday _
  put_asked := rfl
  undated _ _ hts := matchFilter_undated hts
  dated _ _ hts := matchFilter_weekdays hts

end TradeMetaStatsCalculator

end OptionX.Records
