import OptionX.Records.TradeRecordQuery
import OptionX.Storage.Lemmas.TradeRecordDB

/-!
# Lemmas on queries

Composite keys are ordered by minutes first, so that a range of minutes is a range of keys. A query that scans at least
the minutes of the records it is to find finds them all; the order of a result is total.
-/

namespace OptionX.Records.TradeTable

open Lib (OrderedMap)
open Storage (makeCompositeKey timestampMsToUnixMinutes biasMinutes)
open TradeTimeZone (maxInt64)

variable {F Zone : Type} {shield : TimeShield Zone} {table : TradeTable F} {query : TradeRecordQuery F Zone}
  {timestamp : TradeRecord F → Int}

/-! ## Keys -/

/-- A number of minutes that a key can hold. -/
def IsMinutes (minutes : Int) : Prop := -2 ^ 31 ≤ minutes ∧ minutes < 2 ^ 31

theorem toNat_biasMinutes {minutes : Int} (h : IsMinutes minutes) :
    ((biasMinutes minutes).toNat : Int) = minutes + 2 ^ 31 := by
  have hbias : Storage.minutesBias.toNat = 2 ^ 31 := rfl
  have hint : (UInt32.ofInt minutes).toNat = (minutes % 2 ^ 32).toNat := by
    rw [UInt32.ofInt, UInt32.toNat_ofNat']
    omega
  rw [biasMinutes, UInt32.toNat_add, hint, hbias]
  simp only [IsMinutes] at h
  omega

theorem toNat_makeCompositeKey {minutes : Int} (h : IsMinutes minutes) (id : UInt32) :
    ((makeCompositeKey minutes id).toNat : Int) = (minutes + 2 ^ 31) * 2 ^ 32 + id.toNat := by
  have hid := id.toNat_lt
  have hlt := (biasMinutes minutes).toNat_lt
  have hkey : (makeCompositeKey minutes id).toNat = (biasMinutes minutes).toNat * 2 ^ 32 + id.toNat := by
    rw [makeCompositeKey, UInt64.toNat_or, UInt64.toNat_shiftLeft, UInt32.toNat_toUInt64, UInt32.toNat_toUInt64,
      show (32 : UInt64).toNat % 64 = 32 from rfl, Nat.mod_eq_of_lt (by rw [Nat.shiftLeft_eq]; omega),
      ← Nat.shiftLeft_add_eq_or_of_lt hid, Nat.shiftLeft_eq]
  have hbias := toNat_biasMinutes h
  omega

/-- The keys of the minutes from one to another. -/
theorem key_between {a b minutes : Int} (ha : IsMinutes a) (hb : IsMinutes b) (hm : IsMinutes minutes) (id : UInt32) :
    (startKey a ≤ makeCompositeKey minutes id ∧ makeCompositeKey minutes id ≤ stopKey b) ↔ a ≤ minutes ∧ minutes ≤ b := by
  have hid := id.toNat_lt
  have hfirst := toNat_makeCompositeKey ha 0
  have hkey := toNat_makeCompositeKey hm id
  have hlast := toNat_makeCompositeKey hb 0xFFFFFFFF
  have hzero : (0 : UInt32).toNat = 0 := rfl
  have hmax : (0xFFFFFFFF : UInt32).toNat = 2 ^ 32 - 1 := rfl
  rw [startKey, stopKey, UInt64.le_iff_toNat_le, UInt64.le_iff_toNat_le]
  omega

variable (shield) in
theorem isMinutes_unixMinutes (timestampMs : Int) : IsMinutes (unixMinutes shield timestampMs) := by
  simp only [IsMinutes, unixMinutes, timestampMsToUnixMinutes]
  split_ifs <;> omega

theorem unixMinutes_mono (hmono : Monotone shield.msToMin) : Monotone (unixMinutes shield) := by
  intro a b hab
  have := hmono hab
  simp only [unixMinutes, timestampMsToUnixMinutes]
  split_ifs <;> omega

/-! ## Coherent tables -/

/-- Every record under its own key, no trade id twice, and timestamps of 64 bits. -/
structure Coherent (shield : TimeShield Zone) (table : TradeTable F) : Prop where
  key : ∀ entry ∈ table.entries,
    entry.1 = makeCompositeKey (unixMinutes shield entry.2.selectedTimestampMs) entry.2.tradeId
  ids : (table.values.map TradeRecord.tradeId).Nodup
  bounds : ∀ r ∈ table.values, r.selectedTimestampMs ≤ maxInt64

/-- The table has the records whose ids and timestamps the database holds. -/
def Represents (table : TradeTable F) (db : Storage.TradeRecordDB) : Prop :=
  ∀ k r, table.find? k = some r → ∃ stored, db.records.find? k = some stored ∧
    stored.tradeId = r.tradeId ∧ stored.selectedTimestampMs = r.selectedTimestampMs

/-- The content of a database is coherent as far as its keys are right. -/
theorem coherent_of_keyed {db : Storage.TradeRecordDB} (hkeyed : db.Keyed shield.msToMin) (h : Represents table db)
    (hbounds : ∀ r ∈ table.values, r.selectedTimestampMs ≤ maxInt64) : Coherent shield table := by
  constructor
  case bounds => exact hbounds
  case key =>
    intro entry hentry
    obtain ⟨stored, hstored, hid, hts⟩ := h entry.1 entry.2 (OrderedMap.find?_eq_some.mpr hentry)
    rw [(hkeyed.key _ _ hstored).1, Storage.TradeRecord.compositeKey, hid, hts]
    rfl
  case ids =>
    rw [OrderedMap.values, List.map_map, List.Nodup, List.pairwise_map]
    refine table.sorted.imp_of_mem fun {e e'} he he' hlt hid => ?_
    obtain ⟨stored, hstored, hid₁, -⟩ := h e.1 e.2 (OrderedMap.find?_eq_some.mpr he)
    obtain ⟨stored', hstored', hid₂, -⟩ := h e'.1 e'.2 (OrderedMap.find?_eq_some.mpr he')
    have hkeys := (hkeyed.same hstored hstored' (hid₁.trans (hid.trans hid₂.symm))).1
    exact hlt.ne hkeys

/-- A scan of the minutes of all records that pass is a scan of the table. -/
theorem forEachRange_filter (h : Coherent shield table) {a b : Int} (ha : IsMinutes a) (hb : IsMinutes b)
    {p : TradeRecord F → Bool}
    (hp : ∀ r ∈ table.values, p r = true →
      a ≤ unixMinutes shield r.selectedTimestampMs ∧ unixMinutes shield r.selectedTimestampMs ≤ b) :
    (table.forEachRange (startKey a) (stopKey b)).filter p = table.values.filter p := by
  rw [forEachRange, OrderedMap.values, List.filter_map, List.filter_map, List.filter_filter]
  congr 1
  apply List.filter_congr
  intro entry hentry
  cases hpe : p entry.2 with
  | false => simp [hpe]
  | true =>
      have hmin := hp entry.2 (List.mem_map_of_mem hentry) hpe
      have hkey := (key_between ha hb (isMinutes_unixMinutes shield entry.2.selectedTimestampMs)
        entry.2.tradeId).mpr hmin
      rw [← h.key entry hentry] at hkey
      simp [hpe, hkey]

/-! ## The order of a result -/

/-- Strictly earlier in the order of the sorts. -/
def Precedes (timestamp : TradeRecord F → Int) (lhs rhs : TradeRecord F) : Prop :=
  timestamp lhs < timestamp rhs ∨ timestamp lhs = timestamp rhs ∧ lhs.tradeId < rhs.tradeId

theorem before_iff {lhs rhs : TradeRecord F} : before timestamp lhs rhs = true ↔
    timestamp lhs < timestamp rhs ∨ timestamp lhs = timestamp rhs ∧ lhs.tradeId ≤ rhs.tradeId := by
  unfold before
  split_ifs with h
  · simp [h]
  · simp [not_not.mp h]

theorem before_trans (a b c : TradeRecord F) (hab : before timestamp a b = true) (hbc : before timestamp b c = true) :
    before timestamp a c = true := by
  rw [before_iff] at *
  rcases hab with hab | ⟨hab, hid⟩ <;> rcases hbc with hbc | ⟨hbc, hid'⟩
  · exact Or.inl (hab.trans hbc)
  · exact Or.inl (hbc ▸ hab)
  · exact Or.inl (hab ▸ hbc)
  · exact Or.inr ⟨hab.trans hbc, UInt32.le_trans hid hid'⟩

theorem before_total (a b : TradeRecord F) : (before timestamp a b || before timestamp b a) = true := by
  rw [Bool.or_eq_true, before_iff, before_iff]
  rcases lt_trichotomy (timestamp a) (timestamp b) with h | h | h
  · exact Or.inl (Or.inl h)
  · rcases UInt32.le_total a.tradeId b.tradeId with hid | hid
    · exact Or.inl (Or.inr ⟨h, hid⟩)
    · exact Or.inr (Or.inr ⟨h.symm, hid⟩)
  · exact Or.inr (Or.inl h)

theorem precedes_of_before {a b : TradeRecord F} (h : before timestamp a b = true) (hid : a.tradeId ≠ b.tradeId) :
    Precedes timestamp a b := by
  rcases before_iff.mp h with h | ⟨h, hle⟩
  · exact Or.inl h
  · exact Or.inr ⟨h, UInt32.lt_of_le_of_ne hle hid⟩

/-- The order of a query. -/
def Ordered (query : TradeRecordQuery F Zone) (records : List (TradeRecord F)) : Prop :=
  let timestamp := fun r : TradeRecord F => r.selectTimestampMs query.timeField
  if query.ascending then records.Pairwise (Precedes timestamp)
  else records.Pairwise fun lhs rhs => Precedes timestamp rhs lhs

theorem mergeSort_before {records : List (TradeRecord F)} (hids : (records.map TradeRecord.tradeId).Nodup) :
    (records.mergeSort (before timestamp)).Pairwise (Precedes timestamp) := by
  have hsorted : (records.mergeSort (before timestamp)).Pairwise fun lhs rhs => before timestamp lhs rhs = true :=
    List.pairwise_mergeSort before_trans before_total records
  have hdistinct : ((records.mergeSort (before timestamp)).map TradeRecord.tradeId).Nodup :=
    ((List.mergeSort_perm records _).map _).nodup_iff.mpr hids
  exact (hsorted.and (List.pairwise_map.mp hdistinct)).imp fun h => precedes_of_before h.1 h.2

theorem mergeSort_after {records : List (TradeRecord F)} (hids : (records.map TradeRecord.tradeId).Nodup) :
    (records.mergeSort fun lhs rhs => before timestamp rhs lhs).Pairwise fun lhs rhs => Precedes timestamp rhs lhs := by
  have hsorted : (records.mergeSort fun lhs rhs => before timestamp rhs lhs).Pairwise fun lhs rhs =>
      before timestamp rhs lhs = true :=
    List.pairwise_mergeSort (fun a b c hab hbc => before_trans c b a hbc hab) (fun a b => before_total b a) records
  have hdistinct : ((records.mergeSort fun lhs rhs => before timestamp rhs lhs).map TradeRecord.tradeId).Nodup :=
    ((List.mergeSort_perm records _).map _).nodup_iff.mpr hids
  exact (hsorted.and (List.pairwise_map.mp hdistinct)).imp fun h => precedes_of_before h.1 (Ne.symm h.2)

theorem sortRecords_perm (records : List (TradeRecord F)) : (sortRecords query records).Perm records := by
  unfold sortRecords
  cases query.ascending <;> exact List.mergeSort_perm records _

theorem sortRecords_ordered {records : List (TradeRecord F)} (hids : (records.map TradeRecord.tradeId).Nodup) :
    Ordered query (sortRecords query records) := by
  unfold sortRecords Ordered
  cases query.ascending with
  | false => exact mergeSort_after hids
  | true => exact mergeSort_before hids

theorem nodup_filter (h : Coherent shield table) (p : TradeRecord F → Bool) :
    ((table.values.filter p).map TradeRecord.tradeId).Nodup :=
  h.ids.sublist (List.filter_sublist.map _)

/-! ## Queries -/

/-- The range that a query asks for. -/
def inRange (query : TradeRecordQuery F Zone) (ts : Int) : Bool :=
  match query.rangeMode with
  | .none => true
  | .closed => query.startMs ≤ ts && ts ≤ query.stopMs
  | .halfOpen => query.startMs ≤ ts && ts < query.stopMs

/-- The records that a query asks for. -/
def requested [LT F] [DecidableLT F] (shield : TimeShield Zone) (query : TradeRecordQuery F Zone)
    (r : TradeRecord F) : Bool :=
  inRange query (r.selectTimestampMs query.timeField) &&
    matchFilter shield r query.filter query.timeZone (r.selectTimestampMs query.timeField)

/-- What a result keeps of all records that were asked for, in their order. -/
def page (offset limit : Nat) (records : List (TradeRecord F)) : List (TradeRecord F) :=
  if limit = 0 then records.drop offset else (records.drop offset).take limit

/-- A query on the stored states whose expansion covers the distance between the fields of each record. -/
structure Admissible (table : TradeTable F) (query : TradeRecordQuery F Zone) : Prop where
  stored : query.fixStaleStatus = false
  expansion : 0 ≤ query.coarseExpansionMs
  near : query.timeField ≠ .auto → ∀ r ∈ table.values,
    |r.selectTimestampMs query.timeField - r.selectedTimestampMs| ≤ query.coarseExpansionMs

/-- A range other than 0 to 0, and on the place date only where the place date is the selected timestamp. -/
structure Bounded (table : TradeTable F) (query : TradeRecordQuery F Zone) : Prop where
  nonzero : query.startMs ≠ 0 ∨ query.stopMs ≠ 0
  placed : query.timeField = .placeDate → ∀ r ∈ table.values, r.placeDate = r.selectedTimestampMs

theorem matchRange_eq (hzero : query.rangeMode ≠ .none → query.startMs ≠ 0 ∨ query.stopMs ≠ 0) (ts : Int) :
    matchRange query ts = inRange query ts := by
  unfold matchRange inRange
  cases hmode : query.rangeMode with
  | none => simp
  | closed =>
      have hset := hzero (by simp [hmode])
      have hstop : decide (query.stopMs < ts) = !decide (ts ≤ query.stopMs) := by rw [← decide_not, decide_eq_decide, not_le]
      by_cases hstart : ts < query.startMs
      · simp [hset, hstart]
      · simp [hset, hstart, hstop, not_lt.mp hstart]
  | halfOpen =>
      have hset := hzero (by simp [hmode])
      have hstop : decide (query.stopMs ≤ ts) = !decide (ts < query.stopMs) := by rw [← decide_not, decide_eq_decide, not_lt]
      by_cases hstart : ts < query.startMs
      · simp [hset, hstart]
      · simp [hset, hstart, hstop, not_lt.mp hstart]

theorem inRange_le {ts : Int} (hmode : query.rangeMode ≠ .none) (h : inRange query ts = true) :
    query.startMs ≤ ts ∧ ts ≤ query.stopMs := by
  unfold inRange at h
  cases hm : query.rangeMode with
  | none => exact absurd hm hmode
  | closed => simpa [hm] using h
  | halfOpen =>
      simp only [hm, Bool.and_eq_true, decide_eq_true_eq] at h
      exact ⟨h.1, h.2.le⟩

/-- The coarse range holds the selected timestamp of every record of the range. -/
theorem coarse_range (h : Coherent shield table) (ha : Admissible table query) (hb : Bounded table query)
    {r : TradeRecord F} (hr : r ∈ table.values) (hstart : query.startMs ≤ r.selectTimestampMs query.timeField)
    (hstop : r.selectTimestampMs query.timeField ≤ query.stopMs) :
    coarseStartMs query ≤ r.selectedTimestampMs ∧ r.selectedTimestampMs ≤ coarseStopMs query := by
  have hnonneg := r.selectedTimestampMs_nonneg
  have hmax := h.bounds r hr
  unfold coarseStartMs coarseStopMs
  by_cases hfield : query.timeField ≠ .auto ∧ query.timeField ≠ .placeDate
  · have hnear := abs_le.mp (ha.near hfield.1 r hr)
    simp only [hfield, ne_eq, not_false_eq_true, and_self, if_true]
    constructor
    · split <;> omega
    · split <;> omega
  · simp only [hfield, if_false]
    have hsel : r.selectTimestampMs query.timeField = r.selectedTimestampMs := by
      cases hf : query.timeField with
      | auto => rfl
      | placeDate => exact hb.placed hf r hr
      | sendDate => simp [hf] at hfield
      | openDate => simp [hf] at hfield
      | closeDate => simp [hf] at hfield
    omega

variable (shield query) in
theorem isMinutes_startMin : IsMinutes (startMin shield query) := by
  unfold startMin
  split
  · simp [IsMinutes]
  · exact isMinutes_unixMinutes shield _

variable (shield query) in
theorem isMinutes_stopMin : IsMinutes (stopMin shield query) := by
  unfold stopMin
  split
  · simp [IsMinutes]
  · exact isMinutes_unixMinutes shield _

theorem paginate_eq (records : List (TradeRecord F)) : paginate query records = page query.offset query.limit records := by
  unfold paginate page
  by_cases hlimit : query.limit = 0
  · simp [hlimit]
  · by_cases hlen : (records.drop query.offset).length > query.limit
    · rw [if_pos ⟨Nat.pos_of_ne_zero hlimit, hlen⟩, if_neg hlimit]
    · rw [if_neg (fun hc => hlen hc.2), if_neg hlimit, List.take_of_length_le (not_lt.mp hlen)]

/-- What a query asks for lies in the minutes that it scans. -/
theorem requested_scanned [LT F] [DecidableLT F] (hmono : Monotone shield.msToMin) (h : Coherent shield table)
    (ha : Admissible table query) (hb : query.rangeMode ≠ .none → Bounded table query) {r : TradeRecord F}
    (hr : r ∈ table.values) (hreq : requested shield query r = true) :
    startMin shield query ≤ unixMinutes shield r.selectedTimestampMs ∧
      unixMinutes shield r.selectedTimestampMs ≤ stopMin shield query := by
  unfold startMin stopMin
  by_cases hmode : query.rangeMode = .none
  · have hminutes := isMinutes_unixMinutes shield r.selectedTimestampMs
    simp only [IsMinutes] at hminutes
    rw [if_pos hmode, if_pos hmode]
    omega
  · have hrange := inRange_le hmode (Bool.and_eq_true_iff.mp hreq).1
    have hcoarse := coarse_range h ha (hb hmode) hr hrange.1 hrange.2
    rw [if_neg hmode, if_neg hmode]
    exact ⟨unixMinutes_mono hmono hcoarse.1, unixMinutes_mono hmono hcoarse.2⟩

theorem findRecords_eq [LT F] [DecidableLT F] (hmono : Monotone shield.msToMin) (h : Coherent shield table)
    (ha : Admissible table query) (hb : query.rangeMode ≠ .none → Bounded table query) :
    findRecords shield table query =
      page query.offset query.limit (sortRecords query (table.values.filter (requested shield query))) := by
  have hmatch : (fun r : TradeRecord F => matchQuery shield r query) = requested shield query := by
    funext r
    rw [matchQuery, requested, matchRange_eq fun hmode => (hb hmode).nonzero]
  have hscan := forEachRange_filter h (isMinutes_startMin shield query) (isMinutes_stopMin shield query)
    fun r hr hreq => requested_scanned hmono h ha hb hr hreq
  rw [findRecords, hmatch, hscan, ha.stored, if_neg Bool.false_ne_true, paginate_eq]

/-- One page after the other gives all records. -/
theorem flatMap_page (size : Nat) (hsize : 0 < size) (records : List (TradeRecord F)) (count : Nat) :
    ((List.range count).flatMap fun i => page (i * size) size records) = records.take (count * size) := by
  induction count with
  | zero => simp
  | succ count ih =>
      rw [List.range_succ, List.flatMap_append, ih, List.flatMap_singleton, page, if_neg (by omega), Nat.succ_mul,
        List.take_add]

/-- A sorted scan of the minutes of all records that pass holds these records. -/
theorem mem_scan (h : Coherent shield table) {a b : Int} (ha : IsMinutes a) (hb : IsMinutes b) {p : TradeRecord F → Bool}
    (hp : ∀ r ∈ table.values, p r = true →
      a ≤ unixMinutes shield r.selectedTimestampMs ∧ unixMinutes shield r.selectedTimestampMs ≤ b) :
    let records := ((table.forEachRange (startKey a) (stopKey b)).filter p).mergeSort
      (before TradeRecord.selectedTimestampMs)
    records.Pairwise (Precedes TradeRecord.selectedTimestampMs) ∧ ∀ r, r ∈ records ↔ r ∈ table.values ∧ p r = true := by
  rw [forEachRange_filter h ha hb hp]
  exact ⟨mergeSort_before (nodup_filter h p), fun r => by rw [List.mem_mergeSort, List.mem_filter]⟩

theorem findRange_eq (hmono : Monotone shield.msToMin) (h : Coherent shield table) {startMs stopMs : Int}
    (hstart : 0 ≤ startMs) (hle : startMs ≤ stopMs) :
    ∃ records, findRange shield table startMs stopMs = .ok records ∧
      records.Pairwise (Precedes TradeRecord.selectedTimestampMs) ∧
      ∀ r, r ∈ records ↔ r ∈ table.values ∧ startMs ≤ r.selectedTimestampMs ∧ r.selectedTimestampMs ≤ stopMs := by
  have hscan := mem_scan h (isMinutes_unixMinutes shield startMs) (isMinutes_unixMinutes shield stopMs)
    (p := fun r => startMs ≤ r.selectedTimestampMs && r.selectedTimestampMs ≤ stopMs) (by
      intro r _ hp
      simp only [Bool.and_eq_true, decide_eq_true_eq] at hp
      exact ⟨unixMinutes_mono hmono hp.1, unixMinutes_mono hmono hp.2⟩)
  refine ⟨_, by rw [findRange, if_neg (by omega)]; rfl, hscan.1, fun r => ?_⟩
  rw [hscan.2 r]
  simp

theorem findByTimestamp_eq (h : Coherent shield table) {timestampMs : Int} (hnonneg : 0 ≤ timestampMs) :
    ∃ records, findByTimestamp shield table timestampMs = .ok records ∧
      records.Pairwise (Precedes TradeRecord.selectedTimestampMs) ∧
      ∀ r, r ∈ records ↔ r ∈ table.values ∧ r.selectedTimestampMs = timestampMs := by
  have hscan := mem_scan h (isMinutes_unixMinutes shield timestampMs) (isMinutes_unixMinutes shield timestampMs)
    (p := fun r => r.selectedTimestampMs = timestampMs) (by
      intro r _ hp
      rw [of_decide_eq_true hp]
      exact ⟨le_rfl, le_rfl⟩)
  refine ⟨_, by rw [findByTimestamp, if_neg (by omega)]; rfl, hscan.1, fun r => ?_⟩
  rw [hscan.2 r]
  simp

end OptionX.Records.TradeTable
