import OptionX.Records.TradeRecordFilter
import OptionX.Records.TradeRecordStatusFixer

/-!
# Queries on the trade record database

`TradeRecordQuery.hpp`, `TradeRecordFilterMatcher::match`, and the queries of `TradeRecordDB.ipp` on an open database.
The range iteration of the table comes from another library: it visits the entries from the start key to the stop key,
both included.
-/

namespace OptionX.Records

open Lib (OrderedMap)
open TradeTimeZone (maxInt64)

inductive TimeRangeMode where
  | none | closed | halfOpen
  deriving DecidableEq

structure TradeRecordQuery (F Zone : Type) where
  startMs : Int := 0
  stopMs : Int := 0
  timeZone : TradeTimeZone Zone := .utc
  timeField : TradeRecordTimeField := .auto
  rangeMode : TimeRangeMode := .none
  limit : Nat := 0
  offset : Nat := 0
  ascending : Bool := true
  filter : TradeRecordFilter F := {}
  fixStaleStatus : Bool := true
  waitStatusSec : Int := 30
  coarseExpansionMs : Int := 86400000

/-- The table of records under their composite keys. -/
abbrev TradeTable (F : Type) := OrderedMap UInt64 (TradeRecord F)

variable {F Zone : Type}

/-- The time range check, which is skipped where both bounds are zero. -/
def matchRange (query : TradeRecordQuery F Zone) (ts : Int) : Bool :=
  if query.rangeMode ≠ .none then
    if query.startMs ≠ 0 ∨ query.stopMs ≠ 0 then
      if ts < query.startMs then false
      else if query.rangeMode = .closed then !decide (query.stopMs < ts)
      else !decide (query.stopMs ≤ ts)
    else true
  else true

/-- `TradeRecordFilterMatcher::match`. -/
def matchQuery [LT F] [DecidableLT F] (shield : TimeShield Zone) (record : TradeRecord F)
    (query : TradeRecordQuery F Zone) : Bool :=
  let ts := record.selectTimestampMs query.timeField
  matchRange query ts && matchFilter shield record query.filter query.timeZone ts

namespace TradeTable

variable (shield : TimeShield Zone)

def unixMinutes (timestampMs : Int) : Int := Storage.timestampMsToUnixMinutes shield.msToMin timestampMs

/-- The first key of a minute, and the last one. -/
def startKey (minutes : Int) : UInt64 := Storage.makeCompositeKey minutes 0

def stopKey (minutes : Int) : UInt64 := Storage.makeCompositeKey minutes 0xFFFFFFFF

/-- `for_each_range`. -/
def forEachRange (start stop : UInt64) (table : TradeTable F) : List (TradeRecord F) :=
  (table.entries.filter fun entry => start ≤ entry.1 && entry.1 ≤ stop).map Prod.snd

/-- The comparison of the sorts, by a timestamp and then by the trade id. -/
def before (timestamp : TradeRecord F → Int) (lhs rhs : TradeRecord F) : Bool :=
  if timestamp lhs ≠ timestamp rhs then timestamp lhs < timestamp rhs else lhs.tradeId ≤ rhs.tradeId

def findByTimestamp (table : TradeTable F) (timestampMs : Int) : Except String (List (TradeRecord F)) :=
  if timestampMs < 0 then throw "TradeRecord timestamp is invalid"
  else
    let targetMin := unixMinutes shield timestampMs
    let records := (table.forEachRange (startKey targetMin) (stopKey targetMin)).filter fun r =>
      r.selectedTimestampMs = timestampMs
    return records.mergeSort (before TradeRecord.selectedTimestampMs)

def findRange (table : TradeTable F) (startMs stopMs : Int) : Except String (List (TradeRecord F)) :=
  if startMs < 0 ∨ stopMs < 0 ∨ startMs > stopMs then throw "TradeRecord timestamp range is invalid"
  else
    let records := (table.forEachRange (startKey (unixMinutes shield startMs)) (stopKey (unixMinutes shield stopMs))).filter
      fun r => startMs ≤ r.selectedTimestampMs && r.selectedTimestampMs ≤ stopMs
    return records.mergeSort (before TradeRecord.selectedTimestampMs)

def coarseStartMs (query : TradeRecordQuery F Zone) : Int :=
  if query.timeField ≠ .auto ∧ query.timeField ≠ .placeDate then
    if query.startMs > query.coarseExpansionMs then query.startMs - query.coarseExpansionMs else 0
  else query.startMs

def coarseStopMs (query : TradeRecordQuery F Zone) : Int :=
  if query.timeField ≠ .auto ∧ query.timeField ≠ .placeDate then
    if query.stopMs < maxInt64 - query.coarseExpansionMs then query.stopMs + query.coarseExpansionMs else maxInt64
  else query.stopMs

def startMin (query : TradeRecordQuery F Zone) : Int :=
  if query.rangeMode = .none then -2 ^ 31 else unixMinutes shield (coarseStartMs query)

def stopMin (query : TradeRecordQuery F Zone) : Int :=
  if query.rangeMode = .none then 2 ^ 31 - 1 else unixMinutes shield (coarseStopMs query)

/-- The records of the scan in the order of the query. -/
def sortRecords (query : TradeRecordQuery F Zone) (records : List (TradeRecord F)) : List (TradeRecord F) :=
  let timestamp := fun r : TradeRecord F => r.selectTimestampMs query.timeField
  if query.ascending then records.mergeSort (before timestamp)
  else records.mergeSort fun lhs rhs => before timestamp rhs lhs

/-- The offset and the limit; a limit of zero is none. -/
def paginate (query : TradeRecordQuery F Zone) (records : List (TradeRecord F)) : List (TradeRecord F) :=
  let records := records.drop query.offset
  if query.limit > 0 ∧ records.length > query.limit then records.take query.limit else records

def findRecords [LT F] [DecidableLT F] (table : TradeTable F) (query : TradeRecordQuery F Zone) :
    List (TradeRecord F) :=
  let records := (table.forEachRange (startKey (startMin shield query)) (stopKey (stopMin shield query))).filter fun r =>
    matchQuery shield r query
  let records :=
    if query.fixStaleStatus then TradeRecordStatusFixer.fixStaleStatuses (query.waitStatusSec * 1000) records
    else records
  paginate query (sortRecords query records)

end TradeTable

end OptionX.Records
