import OptionX.IntradeBar.QuoteCheck

/-!
# Quote-check pages

A cell that shows a second of the broker's clock is read as that second, with its date or with the date of the request.
The rows collect in a map, whose times are compared with the whole seconds of the range.
-/

namespace OptionX.IntradeBar

open Lib (OrderedMap)
open Lib.Civil (Date dateOf dateOf_bounds)
open Lib.Decimal (Digits digits_append value value_lt)

variable {F : Type} {library : QuoteCheckLibrary F} {request : BrokerQuoteCheckRequest}
  {hour minute second day month year raw rest : List Char} {least most : Nat} {n localSec : Int}

/-- The time library is the civil calendar, as far as milliseconds fit. -/
structure QuoteCheckLibrary.Civil (library : QuoteCheckLibrary F) : Prop where
  toDate : ∀ sec, library.toDate sec = dateOf (sec / 86400)
  toTimestamp : ∀ days hour minute second, 0 ≤ hour → hour < 24 → 0 ≤ minute → minute < 60 → 0 ≤ second → second < 60 →
    library.toTimestamp (dateOf days) hour minute second = 86400 * days + 3600 * hour + 60 * minute + second
  secToMs : ∀ sec, -2 ^ 63 ≤ 1000 * sec → 1000 * sec < 2 ^ 63 → (library.secToMs sec).toInt = 1000 * sec

/-! ## Numerals -/

/-- A numeral with so many digits. -/
structure IsNumeral (least most : Nat) (n : Int) (text : List Char) : Prop where
  digits : Digits text
  least_le : least ≤ text.length
  le_most : text.length ≤ most
  value_eq : (value text : Int) = n

theorem field_append {kind : Char → Bool} {run : List Char} (hrun : ∀ c ∈ run, kind c = true)
    (hrest : ∀ c ∈ rest.head?, kind c = false) (hleast : least ≤ run.length) (hmost : run.length ≤ most) :
    field kind least most (run ++ rest) = some (run, rest) := by
  have htake : rest.takeWhile kind = [] := by
    cases rest with
    | nil => rfl
    | cons c rest => simp [hrest c rfl]
  have hdrop : rest.dropWhile kind = rest := by
    cases rest with
    | nil => rfl
    | cons c rest => simp [hrest c rfl]
  simp [field, List.takeWhile_append_of_pos hrun, List.dropWhile_append_of_pos hrun, htake, hdrop, hleast, hmost]

theorem IsNumeral.field (h : IsNumeral least most n raw) (hrest : ∀ c ∈ rest.head?, c.isDigit = false) :
    field Char.isDigit least most (raw ++ rest) = some (raw, rest) :=
  field_append h.digits hrest h.least_le h.le_most

theorem IsNumeral.parseIntStrict (h : IsNumeral least most n raw) (hleast : 1 ≤ least) (hmost : most ≤ 4) :
    parseIntStrict raw = some n := by
  have hne : raw ≠ [] := by
    rintro rfl
    have := h.least_le
    simp at this
    omega
  have hlt : value raw < 10 ^ 4 :=
    (value_lt h.digits).trans_le (Nat.pow_le_pow_right (by decide) (h.le_most.trans hmost))
  have hdigits : raw.any (!·.isDigit) = false := by
    rw [List.any_eq_false]
    intro c hc
    simp [h.digits c hc]
  unfold IntradeBar.parseIntStrict
  rw [if_neg, h.value_eq]
  simp only [hne, hdigits, false_or, Bool.false_eq_true, not_lt]
  omega

theorem isSpace_of_isDigit {c : Char} (h : c.isDigit = true) : isSpace c = false := by
  have := Lib.Decimal.isDigit_iff.mp h
  have hspace : c ≠ ' ' := by
    rintro rfl
    simp at this
  simp only [isSpace, hspace, false_or, decide_eq_false_iff_not, not_and, not_le]
  omega

/-- There is no space before a numeral. -/
theorem IsNumeral.dropWhile_isSpace (h : IsNumeral least most n raw) (hleast : 1 ≤ least) :
    (raw ++ rest).dropWhile isSpace = raw ++ rest := by
  have := h.least_le
  cases raw with
  | nil =>
    simp at this
    omega
  | cons c raw => simp [isSpace_of_isDigit (h.digits c (by simp))]

/-! ## Cells -/

/-- Hour, minute and second of a local time. -/
structure IsClock (localSec : Int) (hour minute second : List Char) : Prop where
  hour : IsNumeral 1 2 (localSec % 86400 / 3600) hour
  minute : IsNumeral 2 2 (localSec % 3600 / 60) minute
  second : IsNumeral 2 2 (localSec % 60) second

/-- A name of a month, in any case. -/
structure IsMonthName (n : Int) (text : List Char) : Prop where
  alpha : ∀ c ∈ text, c.isAlpha = true
  length : text.length = 3
  named : ∃ index : Nat, months[index]? = some (String.ofList (text.map Char.toLower)) ∧ n = index + 1

/-- A year in four digits, or in two from 2000 to 2099. -/
def IsYear (n : Int) (text : List Char) : Prop := IsNumeral 4 4 n text ∨ IsNumeral 2 2 (n - 2000) text

def timeText (hour minute second : List Char) : List Char := hour ++ ':' :: (minute ++ ':' :: second)

/-- A cell shows a second of the local clock: its time of day alone, or with a month by name or by number. -/
inductive Shows (localSec : Int) : List Char → Prop
  | timeOnly {hour minute second : List Char} (hclock : IsClock localSec hour minute second) :
      Shows localSec (timeText hour minute second)
  | namedMonth {hour minute second day month year : List Char} (hclock : IsClock localSec hour minute second)
      (hday : IsNumeral 1 2 (dateOf (localSec / 86400)).day day)
      (hmonth : IsMonthName (dateOf (localSec / 86400)).month month)
      (hyear : IsYear (dateOf (localSec / 86400)).year year) :
      Shows localSec (timeText hour minute second ++ ',' :: ' ' :: (day ++ ' ' :: (month ++ ' ' :: year)))
  | numericMonth {hour minute second day month year : List Char} (hclock : IsClock localSec hour minute second)
      (hday : IsNumeral 1 2 (dateOf (localSec / 86400)).day day)
      (hmonth : IsNumeral 1 2 (dateOf (localSec / 86400)).month month)
      (hyear : IsYear (dateOf (localSec / 86400)).year year) :
      Shows localSec (timeText hour minute second ++ ',' :: ' ' :: (day ++ '.' :: (month ++ '.' :: year)))

theorem matchTime_eq (h : IsClock localSec hour minute second) (hrest : ∀ c ∈ rest.head?, c.isDigit = false) :
    matchTime (timeText hour minute second ++ rest) = some (hour, minute, second, rest) := by
  simp only [timeText, List.append_assoc, List.cons_append, matchTime, h.hour.dropWhile_isSpace le_rfl]
  rw [h.hour.field (by simp)]
  simp only [Option.bind_eq_bind, Option.bind_some, literal, if_true]
  rw [h.minute.field (by simp)]
  simp only [Option.bind_some, if_true]
  rw [h.second.field hrest]
  rfl

theorem IsYear.matchYear (h : IsYear n year) : matchYear year = some year := by
  have hfield : field Char.isDigit 2 4 (year ++ []) = some (year, []) := by
    rcases h with h | h
    · exact field_append h.digits (by simp) (Nat.le_of_succ_le (Nat.le_of_succ_le h.least_le)) h.le_most
    · exact field_append h.digits (by simp) h.least_le (h.le_most.trans (by decide))
  rw [List.append_nil] at hfield
  unfold IntradeBar.matchYear
  rw [hfield]
  rfl

/-- The year that is read is the one shown, as there are no dates before the year 100. -/
theorem IsYear.parseIntStrict (h : IsYear n year) (hn : 100 ≤ n) :
    ∃ y, parseIntStrict year = some y ∧ (if y < 100 then y + 2000 else y) = n := by
  rcases h with h | h
  · exact ⟨n, h.parseIntStrict (by decide) le_rfl, if_neg (by omega)⟩
  · have hlt := value_lt h.digits
    have hlength : year.length = 2 := le_antisymm h.le_most h.least_le
    have hvalue := h.value_eq
    rw [hlength] at hlt
    exact ⟨n - 2000, h.parseIntStrict (by decide) (by decide), by rw [if_pos (by omega)]; omega⟩

theorem trimCopy_eq_self {text : List Char} (h : ∀ c ∈ text, isSpace c = false) : trimCopy text = text := by
  have hdrop : text.dropWhile isSpace = text :=
    List.dropWhile_eq_self_iff.mpr fun hl => by simp [h _ (List.getElem_mem hl)]
  rw [trimCopy, hdrop]
  exact List.rdropWhile_eq_self_iff.mpr fun hl => by simp [h _ (List.getLast_mem hl)]

theorem isSpace_of_isAlpha {c : Char} (h : c.isAlpha = true) : isSpace c = false := by
  simp only [Char.isAlpha, Char.isUpper, Char.isLower, Bool.or_eq_true, Bool.and_eq_true, decide_eq_true_eq, ge_iff_le,
    UInt32.le_iff_toNat_le] at h
  have hspace : c ≠ ' ' := by
    rintro rfl
    simp at h
  have hval : c.val.toNat = c.toNat := rfl
  simp only [isSpace, hspace, false_or, decide_eq_false_iff_not, not_and, not_le]
  simp at h
  omega

theorem IsMonthName.historyMonthFromName (h : IsMonthName n month) : historyMonthFromName month = n := by
  obtain ⟨index, hindex, rfl⟩ := h.named
  have hnodup : months.Nodup := by simp [months]
  have hfound : months.idxOf? (String.ofList (month.map Char.toLower)) = some index := by
    obtain ⟨hlt, hname⟩ := List.getElem?_eq_some_iff.mp hindex
    refine List.idxOf?_eq_some_iff.mpr ⟨hlt, hname, fun j hj heq => ?_⟩
    rw [← hname, hnodup.getElem_inj_iff] at heq
    omega
  unfold IntradeBar.historyMonthFromName
  rw [trimCopy_eq_self fun c hc => isSpace_of_isAlpha (h.alpha c hc), hfound]

/-! ## Timestamps -/

/-- The fields that are read of a second of the local clock. -/
structure Reads (localSec : Int) (m : DateTimeMatch) (parsedMonth : Option Int) : Prop where
  clock : IsClock localSec m.hour m.minute m.second
  day : IsNumeral 1 2 (dateOf (localSec / 86400)).day m.day
  month : parsedMonth = some (dateOf (localSec / 86400)).month
  year : IsYear (dateOf (localSec / 86400)).year m.year

theorem toTimestamp_clock (hcivil : library.Civil) (days localSec : Int) :
    library.toTimestamp (dateOf days) (localSec % 86400 / 3600) (localSec % 3600 / 60) (localSec % 60) =
      86400 * days + localSec % 86400 := by
  rw [hcivil.toTimestamp _ _ _ _ (by omega) (by omega) (by omega) (by omega) (by omega) (by omega)]
  omega

theorem historyTimestamp_eq (hcivil : library.Civil) (hearly : -1 ≤ localSec / 86400) {m : DateTimeMatch}
    {parsedMonth : Option Int} (h : Reads localSec m parsedMonth) (brokerOffsetSec : Int) :
    historyTimestamp library m parsedMonth brokerOffsetSec = some (library.secToMs (localSec - brokerOffsetSec)) := by
  obtain ⟨hmonth, hmonth', hday, hday', hyear⟩ := dateOf_bounds (localSec / 86400)
  obtain ⟨y, hparsed, hy⟩ := h.year.parseIntStrict (by have := hyear hearly; omega)
  have htimestamp := toTimestamp_clock hcivil (localSec / 86400) localSec
  simp only [historyTimestamp, h.clock.hour.parseIntStrict le_rfl (by decide),
    h.clock.minute.parseIntStrict (by decide) (by decide), h.clock.second.parseIntStrict (by decide) (by decide),
    h.day.parseIntStrict le_rfl (by decide), h.month, hparsed, Option.bind_eq_bind, Option.bind_some, hy, htimestamp]
  rw [if_neg (by omega)]
  congr 3
  omega

/-- A space is skipped up to what is none. -/
theorem skipSpaces_cons {text : List Char} (htext : ∀ c ∈ text.head?, isSpace c = false) :
    skipSpaces (' ' :: text) = some text := by
  have hfield : field isSpace 1 (' ' :: text).length ([' '] ++ text) = some ([' '], text) :=
    field_append (by simp [isSpace]) htext (by simp) (by simp)
  exact congrArg (Option.map _) hfield

theorem IsMonthName.head_append (h : IsMonthName n month) : ∀ c ∈ (month ++ rest).head?, isSpace c = false := by
  cases month with
  | nil => simpa using h.length
  | cons c month =>
    intro d hd
    rw [← Option.some.inj hd]
    exact isSpace_of_isAlpha (h.alpha c (by simp))

theorem IsYear.head (h : IsYear n year) : ∀ c ∈ year.head?, isSpace c = false := by
  intro c hc
  rcases h with h | h <;> exact isSpace_of_isDigit (h.digits c (List.mem_of_mem_head? hc))

theorem matchNamedMonth_eq (hclock : IsClock localSec hour minute second) (hday : IsNumeral 1 2 n day)
    {monthNumber yearNumber : Int} (hmonth : IsMonthName monthNumber month) (hyear : IsYear yearNumber year) :
    matchNamedMonth (timeText hour minute second ++ ',' :: ' ' :: (day ++ ' ' :: (month ++ ' ' :: year))) =
      some ⟨hour, minute, second, day, month, year⟩ := by
  have hspaces : (' ' :: (day ++ ' ' :: (month ++ ' ' :: year))).dropWhile isSpace =
      day ++ ' ' :: (month ++ ' ' :: year) := by
    rw [List.dropWhile_cons_of_pos (by rfl), hday.dropWhile_isSpace le_rfl]
  have hname : field Char.isAlpha 3 3 (month ++ ' ' :: year) = some (month, ' ' :: year) :=
    field_append hmonth.alpha (by simp) hmonth.length.ge hmonth.length.le
  unfold matchNamedMonth
  rw [matchTime_eq hclock (by simp)]
  simp only [Option.bind_eq_bind, Option.bind_some, literal, if_true, hspaces]
  rw [hday.field (by simp)]
  simp only [Option.bind_some, skipSpaces_cons hmonth.head_append, hname, skipSpaces_cons hyear.head, hyear.matchYear]
  rfl

theorem matchNamedMonth_numeric (hclock : IsClock localSec hour minute second) (hday : IsNumeral 1 2 n day) :
    matchNamedMonth (timeText hour minute second ++ ',' :: ' ' :: (day ++ '.' :: rest)) = none := by
  have hspaces : (' ' :: (day ++ '.' :: rest)).dropWhile isSpace = day ++ '.' :: rest := by
    rw [List.dropWhile_cons_of_pos (by rfl), hday.dropWhile_isSpace le_rfl]
  unfold matchNamedMonth
  rw [matchTime_eq hclock (by simp)]
  simp only [Option.bind_eq_bind, Option.bind_some, literal, if_true, hspaces]
  rw [hday.field (by simp)]
  simp [skipSpaces, field, isSpace]

theorem matchNumericMonth_eq (hclock : IsClock localSec hour minute second) (hday : IsNumeral 1 2 n day)
    {monthNumber yearNumber : Int} (hmonth : IsNumeral 1 2 monthNumber month) (hyear : IsYear yearNumber year) :
    matchNumericMonth (timeText hour minute second ++ ',' :: ' ' :: (day ++ '.' :: (month ++ '.' :: year))) =
      some ⟨hour, minute, second, day, month, year⟩ := by
  have hspaces : (' ' :: (day ++ '.' :: (month ++ '.' :: year))).dropWhile isSpace =
      day ++ '.' :: (month ++ '.' :: year) := by
    rw [List.dropWhile_cons_of_pos (by rfl), hday.dropWhile_isSpace le_rfl]
  unfold matchNumericMonth
  rw [matchTime_eq hclock (by simp)]
  simp only [Option.bind_eq_bind, Option.bind_some, literal, if_true, hspaces]
  rw [hday.field (by simp)]
  simp only [Option.bind_some, if_true]
  rw [hmonth.field (by simp)]
  simp only [Option.bind_some, if_true, hyear.matchYear]
  rfl

theorem matchTime_timeText (hclock : IsClock localSec hour minute second) :
    matchTime (timeText hour minute second) = some (hour, minute, second, []) := by
  have htime : matchTime (timeText hour minute second ++ []) = some (hour, minute, second, []) :=
    matchTime_eq hclock (by simp)
  rwa [List.append_nil] at htime

theorem parseHistoryDatetimeMs_timeOnly (hclock : IsClock localSec hour minute second) (brokerOffsetSec : Int) :
    parseHistoryDatetimeMs library (timeText hour minute second) brokerOffsetSec = none := by
  simp [parseHistoryDatetimeMs, matchNamedMonth, matchNumericMonth, matchTime_timeText hclock, literal]

/-- A cell is read as the second that it shows; a time without a date is one of the day of the request. -/
theorem parseQuoteCheckDatetimeMs_eq (hcivil : library.Civil) (hearly : -1 ≤ localSec / 86400)
    (hday : localSec / 86400 = localFromSec request / 86400) (h : Shows localSec raw) :
    parseQuoteCheckDatetimeMs library raw request = some (library.secToMs (localSec - request.brokerUtcOffsetSec)) := by
  unfold parseQuoteCheckDatetimeMs
  cases h with
  | timeOnly hclock =>
    have htimestamp := toTimestamp_clock hcivil (localSec / 86400) localSec
    rw [parseHistoryDatetimeMs_timeOnly hclock]
    simp only [timeOnlyTimestamp, matchTimeOnly, matchTime_timeText hclock, Option.bind_eq_bind, Option.bind_some, List.all_nil, if_true,
      hclock.hour.parseIntStrict le_rfl (by decide), hclock.minute.parseIntStrict (by decide) (by decide),
      hclock.second.parseIntStrict (by decide) (by decide), hcivil.toDate, ← hday, htimestamp]
    rw [if_neg (by omega)]
    congr 3
    omega
  | @namedMonth hour minute second day month year hclock hdate hmonth hyear =>
    have hreads : Reads localSec ⟨hour, minute, second, day, month, year⟩ (some (historyMonthFromName month)) :=
      ⟨hclock, hdate, congrArg some hmonth.historyMonthFromName, hyear⟩
    simp only [parseHistoryDatetimeMs, matchNamedMonth_eq hclock hdate hmonth hyear,
      historyTimestamp_eq hcivil hearly hreads]
  | @numericMonth hour minute second day month year hclock hdate hmonth hyear =>
    have hreads : Reads localSec ⟨hour, minute, second, day, month, year⟩ (parseIntStrict month) :=
      ⟨hclock, hdate, hmonth.parseIntStrict le_rfl (by decide), hyear⟩
    simp only [parseHistoryDatetimeMs, matchNamedMonth_numeric hclock hdate,
      matchNumericMonth_eq hclock hdate hmonth hyear, historyTimestamp_eq hcivil hearly hreads]

/-! ## Rows -/

/-- A row shows an observation in milliseconds: its second on the broker's clock, and its price. -/
def RowShows (library : QuoteCheckLibrary F) (request : BrokerQuoteCheckRequest) (row : List (List Char))
    (observation : Int × F) : Prop :=
  ∃ whole time bid price more, row = whole :: time :: bid :: price :: more ∧
    Shows (observation.1 / 1000 + request.brokerUtcOffsetSec) (trimCopy time) ∧
    library.parseDoubleStrict (withPoint (trimCopy price)) = some observation.2

/-- A whole second of the day of the request, in milliseconds that fit. -/
structure OnDay (request : BrokerQuoteCheckRequest) (timeMs : Int) : Prop where
  whole : timeMs % 1000 = 0
  sameDay : (timeMs / 1000 + request.brokerUtcOffsetSec) / 86400 = localFromSec request / 86400
  fits : timeMs < 2 ^ 63

def InRange (request : BrokerQuoteCheckRequest) (timeMs : Int) : Prop :=
  (request.fromTimeMs.toNat : Int) ≤ timeMs ∧ timeMs ≤ request.toTimeMs.toNat

instance (timeMs : Int) : Decidable (InRange request timeMs) := inferInstanceAs (Decidable (_ ∧ _))

theorem offset_of_valid (h : request.valid = true) :
    -86400 ≤ request.brokerUtcOffsetSec ∧ request.brokerUtcOffsetSec ≤ 86400 := by
  simp only [BrokerQuoteCheckRequest.valid, Bool.and_eq_true, decide_eq_true_eq, ge_iff_le] at h
  omega

theorem readRow_eq (hcivil : library.Civil) (hvalid : request.valid = true) {row : List (List Char)}
    {observation : Int × F} (hrow : RowShows library request row observation) (hday : OnDay request observation.1) :
    ∃ timestamp : Int64, timestamp.toInt = observation.1 ∧
      readRow library request row = if observation.1 < 0 then none else some (timestamp, observation.2) := by
  obtain ⟨whole, time, bid, price, more, rfl, hshows, hprice⟩ := hrow
  obtain ⟨hoffset, hoffset'⟩ := offset_of_valid hvalid
  have hwhole := hday.whole
  have hsame := hday.sameDay
  have hfits := hday.fits
  have hfrom : -86400 ≤ localFromSec request := by
    unfold localFromSec
    omega
  have htimestamp := hcivil.secToMs (observation.1 / 1000) (by omega) (by omega)
  refine ⟨library.secToMs (observation.1 / 1000), by omega, ?_⟩
  have hread := parseQuoteCheckDatetimeMs_eq hcivil (by omega) hsame hshows
  rw [add_sub_cancel_right] at hread
  have hnegative : library.secToMs (observation.1 / 1000) < 0 ↔ observation.1 < 0 := by
    rw [Int64.lt_iff_toInt_lt, htimestamp]
    simp
    omega
  simp only [readRow, hread, hprice, Option.bind_eq_bind, Option.bind_some, hnegative]

theorem find?_collectRow (hcivil : library.Civil) (hvalid : request.valid = true) {row : List (List Char)}
    {observation : Int × F} (hrow : RowShows library request row observation) (hday : OnDay request observation.1)
    (collected : CollectedRows F) (t : UInt64) :
    (collectRow library request collected row).rows.find? t =
      if observation.1 = t.toNat ∧ InRange request observation.1 then some observation.2
      else collected.rows.find? t := by
  obtain ⟨timestamp, htimestamp, hread⟩ := readRow_eq hcivil hvalid hrow hday
  have hfits := hday.fits
  have ht := t.toNat_lt
  unfold collectRow
  by_cases hnegative : observation.1 < 0
  · rw [hread, if_pos hnegative, if_neg (by omega)]
  · have htoNat : (timestamp.toUInt64.toNat : Int) = observation.1 := by
      rw [Lib.int64_toUInt64]
      omega
    have hin : ¬ (timestamp.toUInt64 < request.fromTimeMs ∨ timestamp.toUInt64 > request.toTimeMs) ↔
        InRange request observation.1 := by
      simp only [InRange, ← htoNat, UInt64.lt_iff_toNat_lt, gt_iff_lt]
      omega
    have heq : t = timestamp.toUInt64 ↔ observation.1 = t.toNat := by
      rw [← UInt64.toNat_inj]
      omega
    rw [hread, if_neg hnegative]
    dsimp only
    by_cases hrange : InRange request observation.1
    · rw [if_neg (hin.mpr hrange), OrderedMap.find?_assign]
      simp only [heq, hrange, and_true]
    · rw [if_pos (not_not.mp (mt hin.mp hrange)), if_neg fun h => hrange h.2]

/-- The map holds the last row of each time in the range, and here each time has one row. -/
theorem find?_foldl_collectRow (hcivil : library.Civil) (hvalid : request.valid = true)
    {rows : List (List (List Char))} {observations : List (Int × F)}
    (hrows : List.Forall₂ (RowShows library request) rows observations)
    (hday : ∀ o ∈ observations, OnDay request o.1) (hdistinct : (observations.map Prod.fst).Nodup)
    (collected : CollectedRows F) (t : UInt64) (price : F) :
    (rows.foldl (collectRow library request) collected).rows.find? t = some price ↔
      ((t.toNat : Int), price) ∈ observations ∧ InRange request t.toNat ∨
      collected.rows.find? t = some price ∧ (InRange request t.toNat → ∀ o ∈ observations, o.1 ≠ t.toNat) := by
  induction hrows generalizing collected with
  | nil => simp
  | @cons row observation rows observations hrow _ ih =>
    obtain ⟨time, observed⟩ := observation
    simp only [List.map_cons, List.nodup_cons, List.mem_map, not_exists, not_and] at hdistinct
    rw [List.foldl_cons, ih (fun o ho => hday o (by simp [ho])) hdistinct.2,
      find?_collectRow hcivil hvalid hrow (hday _ (by simp))]
    have hother : time = t.toNat → ∀ p, ((t.toNat : Int), p) ∉ observations := by
      rintro rfl p hp
      exact hdistinct.1 _ hp rfl
    by_cases htime : time = t.toNat
    · subst htime
      simp only [List.mem_cons, Prod.mk.injEq, true_and]
      by_cases hrange : InRange request t.toNat
      · have hnot := hother rfl price
        have hfree : ∀ o ∈ observations, o.1 ≠ t.toNat := fun o ho h => hdistinct.1 o ho h
        simp only [hrange, and_true, if_true, hnot, or_false, false_or, Option.some.injEq, forall_true_left]
        constructor
        · rintro ⟨rfl, -⟩
          exact .inl rfl
        · rintro (rfl | ⟨-, hfree'⟩)
          · exact ⟨rfl, hfree⟩
          · exact absurd rfl (hfree' (_, observed) (by simp))
      · simp [hrange]
    · have htime' : (t.toNat : Int) ≠ time := fun h => htime h.symm
      simp [htime, htime']

/-! ## Whole seconds -/

theorem firstQuoteCheckTimeMs_toNat (request : BrokerQuoteCheckRequest) :
    (firstQuoteCheckTimeMs request).toNat =
      if request.fromTimeMs.toNat % 1000 = 0 then request.fromTimeMs.toNat
      else min (2 ^ 64 - 1) (request.fromTimeMs.toNat / 1000 * 1000 + 1000) := by
  have hlt := request.fromTimeMs.toNat_lt
  have hmod : (request.fromTimeMs % 1000).toNat = request.fromTimeMs.toNat % 1000 := rfl
  have hmax : maxTimeMs.toNat = 2 ^ 64 - 1 := rfl
  have hzero : request.fromTimeMs % 1000 = 0 ↔ request.fromTimeMs.toNat % 1000 = 0 := by
    rw [← UInt64.toNat_inj, hmod]
    rfl
  unfold firstQuoteCheckTimeMs
  dsimp only
  simp only [hzero]
  split
  · rfl
  · rename_i hsome
    have hincrement : (1000 - request.fromTimeMs % 1000).toNat = 1000 - request.fromTimeMs.toNat % 1000 := by
      rw [UInt64.toNat_sub_of_le]
      · rfl
      · rw [UInt64.le_iff_toNat_le, hmod]
        exact (Nat.mod_lt _ (by decide)).le
    have hroom : (maxTimeMs - (1000 - request.fromTimeMs % 1000)).toNat =
        2 ^ 64 - 1 - (1000 - request.fromTimeMs.toNat % 1000) := by
      rw [UInt64.toNat_sub_of_le, hincrement, hmax]
      rw [UInt64.le_iff_toNat_le, hincrement, hmax]
      omega
    split
    · rename_i hlate
      rw [gt_iff_lt, UInt64.lt_iff_toNat_lt, hroom] at hlate
      omega
    · rename_i hearly
      rw [gt_iff_lt, UInt64.lt_iff_toNat_lt, hroom] at hearly
      rw [UInt64.toNat_add, hincrement]
      omega

theorem quoteCheckExpectedCount_toNat (hvalid : request.valid = true) :
    (quoteCheckExpectedCount request).toNat =
      if (firstQuoteCheckTimeMs request).toNat > request.toTimeMs.toNat / 1000 * 1000 then 0
      else (request.toTimeMs.toNat / 1000 * 1000 - (firstQuoteCheckTimeMs request).toNat) / 1000 + 1 := by
  have hlt := request.toTimeMs.toNat_lt
  have hlast : (request.toTimeMs - request.toTimeMs % 1000).toNat = request.toTimeMs.toNat / 1000 * 1000 := by
    have hmod : (request.toTimeMs % 1000).toNat = request.toTimeMs.toNat % 1000 := rfl
    rw [UInt64.toNat_sub_of_le, hmod]
    · omega
    · rw [UInt64.le_iff_toNat_le, hmod]
      exact Nat.mod_le _ _
  simp only [quoteCheckExpectedCount, hvalid, Bool.not_true, Bool.false_eq_true, if_false, gt_iff_lt,
    UInt64.lt_iff_toNat_lt, hlast]
  split
  · rfl
  · rename_i hle
    rw [UInt64.toNat_add, UInt64.toNat_div, UInt64.toNat_sub_of_le, hlast]
    · have h1000 : (1000 : UInt64).toNat = 1000 := rfl
      have h1 : (1 : UInt64).toNat = 1 := rfl
      rw [h1000, h1, Nat.mod_eq_of_lt]
      omega
    · rw [UInt64.le_iff_toNat_le, hlast]
      omega

/-- The times that the check for completeness expects. -/
def gridTimes (request : BrokerQuoteCheckRequest) : List UInt64 :=
  (List.range (quoteCheckExpectedCount request).toNat).map fun index =>
    firstQuoteCheckTimeMs request + UInt64.ofNat index * 1000

theorem gridTime_toNat (hvalid : request.valid = true) {index : Nat}
    (h : index < (quoteCheckExpectedCount request).toNat) :
    (firstQuoteCheckTimeMs request + UInt64.ofNat index * 1000).toNat =
      (firstQuoteCheckTimeMs request).toNat + index * 1000 := by
  have hlt := request.toTimeMs.toNat_lt
  rw [quoteCheckExpectedCount_toNat hvalid] at h
  have h1000 : (1000 : UInt64).toNat = 1000 := rfl
  have hindex : (UInt64.ofNat index).toNat = index := by
    rw [UInt64.toNat_ofNat', Nat.mod_eq_of_lt]
    split at h <;> omega
  rw [UInt64.toNat_add, UInt64.toNat_mul, hindex, h1000]
  split at h <;> omega

/-- The expected times are the whole seconds of the range. -/
theorem mem_gridTimes (hvalid : request.valid = true) (t : UInt64) :
    t ∈ gridTimes request ↔ InRange request t.toNat ∧ t.toNat % 1000 = 0 := by
  have hcount := quoteCheckExpectedCount_toNat hvalid
  have hfirst := firstQuoteCheckTimeMs_toNat request
  have hfrom := request.fromTimeMs.toNat_lt
  have hto := request.toTimeMs.toNat_lt
  simp only [gridTimes, List.mem_map, List.mem_range, InRange, Nat.cast_le]
  constructor
  · rintro ⟨index, hindex, rfl⟩
    rw [gridTime_toNat hvalid hindex]
    rw [hcount] at hindex
    split at hindex <;> split at hfirst <;> omega
  · rintro ⟨⟨hle, hle'⟩, hwhole⟩
    have hfirst_le : (firstQuoteCheckTimeMs request).toNat ≤ t.toNat ∧
        (t.toNat - (firstQuoteCheckTimeMs request).toNat) % 1000 = 0 := by
      split at hfirst <;> omega
    have hindex : (t.toNat - (firstQuoteCheckTimeMs request).toNat) / 1000 <
        (quoteCheckExpectedCount request).toNat := by
      rw [hcount, if_neg (by omega)]
      omega
    refine ⟨_, hindex, UInt64.toNat_inj.mp ?_⟩
    rw [gridTime_toNat hvalid hindex]
    omega

theorem gridTimes_sorted (hvalid : request.valid = true) : (gridTimes request).Pairwise (· < ·) := by
  rw [gridTimes, List.pairwise_map]
  refine List.pairwise_lt_range.imp_of_mem fun {i j} hi hj hij => ?_
  rw [UInt64.lt_iff_toNat_lt, gridTime_toNat hvalid (List.mem_range.mp hi), gridTime_toNat hvalid (List.mem_range.mp hj)]
  omega

theorem coversRange_iff_eq (observations : List (BrokerQuoteCheckObservation F)) :
    coversRange request observations = true ↔ observations.map (·.timeMs) = gridTimes request := by
  simp only [coversRange, Bool.and_eq_true, decide_eq_true_eq, List.all_eq_true, Prod.forall,
    List.mem_zipIdx_iff_getElem?]
  constructor
  · rintro ⟨hlength, htimes⟩
    apply List.ext_getElem
    · simp [gridTimes, hlength]
    · intro i hi hi'
      have := htimes _ i (List.getElem?_eq_getElem (by simpa using hi))
      simpa [gridTimes] using this
  · intro heq
    have hlength := congrArg List.length heq
    rw [List.length_map, gridTimes, List.length_map, List.length_range] at hlength
    refine ⟨hlength, fun o i ho => ?_⟩
    obtain ⟨hi, rfl⟩ := List.getElem?_eq_some_iff.mp ho
    have := List.getElem_of_eq heq (by simpa using hi)
    simpa [gridTimes] using this

/-- Observations in time order cover the range when their times are its whole seconds. -/
theorem coversRange_iff (hvalid : request.valid = true) {observations : List (BrokerQuoteCheckObservation F)}
    (hsorted : observations.Pairwise fun a b => a.timeMs < b.timeMs) :
    coversRange request observations = true ↔
      ∀ t, t ∈ observations.map (·.timeMs) ↔ InRange request t.toNat ∧ t.toNat % 1000 = 0 := by
  have htimes : (observations.map (·.timeMs)).Pairwise (· < ·) := List.pairwise_map.mpr hsorted
  rw [coversRange_iff_eq]
  constructor
  · intro heq t
    rw [heq, mem_gridTimes hvalid]
  · intro hmem
    have hperm : (observations.map (·.timeMs)).Perm (gridTimes request) :=
      (List.perm_ext_iff_of_nodup (htimes.imp (fun h => ne_of_lt h))
        ((gridTimes_sorted hvalid).imp (fun h => ne_of_lt h))).mpr fun t => by rw [hmem, mem_gridTimes hvalid]
    exact hperm.eq_of_pairwise (fun a b _ _ hab hba => absurd (hab.trans hba) (lt_irrefl _)) htimes
      (gridTimes_sorted hvalid)

/-! ## Pages -/

theorem parseQuoteCheckHtml_sorted (library : QuoteCheckLibrary F) (content : List Char)
    (request : BrokerQuoteCheckRequest) :
    (parseQuoteCheckHtml library content request).observations.Pairwise fun a b => a.timeMs < b.timeMs := by
  unfold parseQuoteCheckHtml
  dsimp only
  split
  · exact .nil
  · exact List.pairwise_map.mpr (((pageRows library content).foldl (collectRow library request) {}).rows.sorted)

/-- A row that is read into the map has a time in the range. -/
theorem inRange_collectRow {rows : List (List (List Char))} {collected : CollectedRows F}
    (h : ∀ t price, collected.rows.find? t = some price → InRange request t.toNat) (t : UInt64) (price : F)
    (hfound : (rows.foldl (collectRow library request) collected).rows.find? t = some price) :
    InRange request t.toNat := by
  induction rows generalizing collected with
  | nil => exact h t price hfound
  | cons row rows ih =>
    refine ih (fun t price hstep => ?_) hfound
    unfold collectRow at hstep
    split at hstep
    · exact h t price hstep
    · rename_i timestamp observed hread
      dsimp only at hstep
      split at hstep
      · exact h t price hstep
      · rename_i hin
        rw [OrderedMap.find?_assign] at hstep
        split at hstep
        · rename_i heq
          subst heq
          simpa [InRange, UInt64.lt_iff_toNat_lt] using hin
        · exact h t price hstep

theorem parseQuoteCheckHtml_perm (hcivil : library.Civil) (hvalid : request.valid = true) {content : List Char}
    {observations : List (Int × F)} (hdistinct : (observations.map Prod.fst).Nodup)
    (hday : ∀ o ∈ observations, OnDay request o.1)
    (hrows : List.Forall₂ (RowShows library request) (pageRows library content) observations) :
    ((parseQuoteCheckHtml library content request).observations.map fun o => ((o.timeMs.toNat : Int), o.price)).Perm
      (observations.filter fun o => InRange request o.1) := by
  have hsorted := parseQuoteCheckHtml_sorted library content request
  have hnodup : ((parseQuoteCheckHtml library content request).observations.map
      fun o => ((o.timeMs.toNat : Int), o.price)).Nodup := by
    refine List.pairwise_map.mpr (hsorted.imp fun hlt heq => ?_)
    simp only [Prod.mk.injEq, Nat.cast_inj] at heq
    rw [UInt64.lt_iff_toNat_lt] at hlt
    omega
  refine (List.perm_ext_iff_of_nodup hnodup (hdistinct.of_map _ |>.filter _)).mpr ?_
  rintro ⟨time, price⟩
  have hfound := find?_foldl_collectRow hcivil hvalid hrows hday hdistinct {}
  simp only [parseQuoteCheckHtml, hvalid, Bool.not_true, Bool.false_eq_true, if_false, List.map_map, List.mem_map,
    Prod.exists, Function.comp_apply, Prod.mk.injEq, List.mem_filter, decide_eq_true_eq, ← OrderedMap.find?_eq_some,
    hfound]
  constructor
  · rintro ⟨t, p, ⟨hmem, hrange⟩ | ⟨hnone, -⟩, rfl, rfl⟩
    · exact ⟨hmem, hrange⟩
    · simp at hnone
  · rintro ⟨hmem, hrange⟩
    have hfits := (hday _ hmem).fits
    have hle := hrange.1
    have htime : ((UInt64.ofNat time.toNat).toNat : Int) = time := by
      rw [UInt64.toNat_ofNat', Nat.mod_eq_of_lt] <;> omega
    exact ⟨UInt64.ofNat time.toNat, price, .inl (by rw [htime]; exact ⟨hmem, hrange⟩), htime, rfl⟩

theorem parseQuoteCheckHtml_complete (hvalid : request.valid = true) (library : QuoteCheckLibrary F)
    (content : List Char) :
    (parseQuoteCheckHtml library content request).rangeComplete = true ↔
      (parseQuoteCheckHtml library content request).malformedRows = 0 ∧
      ∀ t, t ∈ (parseQuoteCheckHtml library content request).observations.map (·.timeMs) ↔
        InRange request t.toNat ∧ t.toNat % 1000 = 0 := by
  rw [← coversRange_iff hvalid (parseQuoteCheckHtml_sorted library content request)]
  simp only [parseQuoteCheckHtml, hvalid, Bool.not_true, Bool.false_eq_true, if_false, Bool.and_eq_true,
    decide_eq_true_eq]

end OptionX.IntradeBar
