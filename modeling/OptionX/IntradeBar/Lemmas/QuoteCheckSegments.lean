import OptionX.IntradeBar.Lemmas.QuoteCheck
import OptionX.IntradeBar.QuoteCheckSegments

/-!
# Runs of a quote check

A segment ends with the range, with the local day or after half an hour, and the next one begins with the next whole
second. The invariant of a run says what the segments before the open one cover, and that their observations are collected.
-/

namespace OptionX.IntradeBar

open Lib (OrderedMap)
open Lib.Civil (dateOf)

variable {F : Type} {tools : QuoteCheckTools F} {request : BrokerQuoteCheckRequest} {offset a b t : Int}

/-! ## Midnights -/

/-- The first local midnight after a time. -/
def nextMidnight (offset a : Int) : Int := 1000 * (86400 * ((a / 1000 + offset) / 86400 + 1) - offset)

theorem lt_nextMidnight (offset a : Int) : a < nextMidnight offset a := by
  unfold nextMidnight
  omega

theorem nextMidnight_whole (offset a : Int) : nextMidnight offset a % 1000 = 0 := by
  unfold nextMidnight
  omega

theorem nextMidnight_eq (ha : a ≤ b) (h : b < nextMidnight offset a) : nextMidnight offset b = nextMidnight offset a := by
  unfold nextMidnight at *
  omega

theorem nextMidnight_self : nextMidnight offset (nextMidnight offset a) = nextMidnight offset a + 86400000 := by
  unfold nextMidnight
  omega

/-! ## Ranges that end within the second of a half hour -/

/-- The last midnight in a range of two days, or its start. -/
def lastStart (offset a t : Int) : Int := if nextMidnight offset a ≤ t then nextMidnight offset a else a

/-- A half hour from the last start ends in the same second as the range, and before it. Half an hour with both of its ends
is 1801 seconds. -/
def EndsShort (offset a t : Int) : Prop :=
  (t / 1000 - lastStart offset a t / 1000) % 1801 = 1800 ∧
    (if t / 1000 - lastStart offset a t / 1000 = 1800 then lastStart offset a t % 1000 else 0) < t % 1000

instance : Decidable (EndsShort offset a t) := inferInstanceAs (Decidable (_ ∧ _))

theorem not_endsShort_last (ha : a ≤ t) (hday : t ≤ nextMidnight offset a - 1) (hhalf : t ≤ a + 1800000) :
    ¬ EndsShort offset a t := by
  unfold EndsShort lastStart
  rw [if_neg (by omega)]
  split <;> omega

theorem endsShort_of_late (ht : a + 1800000 < t) (hday : a + 1800000 ≤ nextMidnight offset a - 1)
    (hlate : t < (a + 1800000) / 1000 * 1000 + 1000) : EndsShort offset a t := by
  have hwhole := nextMidnight_whole offset a
  unfold EndsShort lastStart
  rw [if_neg (by omega)]
  split <;> omega

theorem endsShort_midnight (hin : nextMidnight offset a ≤ t) (htwo : t < nextMidnight offset a + 86400000) :
    EndsShort offset (nextMidnight offset a) t ↔ EndsShort offset a t := by
  have hself := @nextMidnight_self offset a
  have hstart : lastStart offset (nextMidnight offset a) t = lastStart offset a t := by
    rw [lastStart, lastStart, if_pos hin, if_neg (by omega)]
  unfold EndsShort
  rw [hstart]

/-- The next half hour of the same day. -/
theorem endsShort_halfHour {next : Int} (hnext : next = (a + 1800000) / 1000 * 1000 + 1000) (hle : next ≤ t)
    (hday : next < nextMidnight offset a) : EndsShort offset next t ↔ EndsShort offset a t := by
  have hsame : nextMidnight offset next = nextMidnight offset a := nextMidnight_eq (by omega) hday
  unfold EndsShort lastStart
  rw [hsame]
  by_cases hin : nextMidnight offset a ≤ t
  · rw [if_pos hin, if_pos hin]
  · rw [if_neg hin, if_neg hin]
    have hsecond : next / 1000 = a / 1000 + 1801 := by omega
    have hmod : (t / 1000 - (a / 1000 + 1801)) % 1801 = (t / 1000 - a / 1000) % 1801 := by omega
    have hfirst : t / 1000 - a / 1000 ≠ 1800 := by omega
    rw [hsecond, hmod, if_neg hfirst, show next % 1000 = 0 by omega, ite_self]

/-- The end of a segment decides nothing about the rest of the range. -/
theorem endsShort_next (htwo : t < nextMidnight offset a + 86400000)
    (hb : b = min (nextMidnight offset a - 1) (a + 1800000)) (hnext : b / 1000 * 1000 + 1000 ≤ t) :
    EndsShort offset (b / 1000 * 1000 + 1000) t ↔ EndsShort offset a t := by
  have hwhole := nextMidnight_whole offset a
  by_cases hmidnight : b / 1000 * 1000 + 1000 = nextMidnight offset a
  · rw [hmidnight] at hnext ⊢
    exact endsShort_midnight hnext htwo
  · have hhalf : b = a + 1800000 := by omega
    exact endsShort_halfHour (by rw [hhalf]) hnext (by omega)

/-! ## Bounds of segments -/

theorem brokerDayIndex_eq (offsetSec : Int) (timeMs : UInt64) :
    brokerDayIndex offsetSec timeMs = ((timeMs.toNat : Int) / 1000 + offsetSec) / 86400 := by
  unfold brokerDayIndex
  dsimp only
  have hcast : ((timeMs.toNat / 1000 : Nat) : Int) = (timeMs.toNat : Int) / 1000 := by omega
  rw [hcast]
  split
  · rfl
  · rename_i hneg
    rw [Int.tdiv_eq_ediv, show Int.sign 86400 = 1 from rfl]
    split <;> omega

theorem segmentDayEndMs_toNat (hcivil : tools.Civil) (hvalid : request.valid = true) {fromMs : UInt64}
    (hstart : fromMs.toNat < 2 ^ 53) :
    ((segmentDayEndMs tools request fromMs).toNat : Int) =
      nextMidnight request.brokerUtcOffsetSec fromMs.toNat - 1 := by
  obtain ⟨hoffset, hoffset'⟩ := offset_of_valid hvalid
  have hlt := lt_nextMidnight request.brokerUtcOffsetSec fromMs.toNat
  have hle : nextMidnight request.brokerUtcOffsetSec fromMs.toNat ≤ fromMs.toNat + 86400000 := by
    unfold nextMidnight
    omega
  have hday := hcivil.toTimestamp ((((fromMs.toNat / 1000 : Nat) : Int) + request.brokerUtcOffsetSec) / 86400) 0 0 0
    le_rfl (by decide) le_rfl (by decide) le_rfl (by decide)
  have hsecond : (tools.secToMs (tools.toTimestamp (dateOf ((((fromMs.toNat / 1000 : Nat) : Int) +
      request.brokerUtcOffsetSec) / 86400)) 0 0 0 + 86400 - request.brokerUtcOffsetSec)).toInt =
      nextMidnight request.brokerUtcOffsetSec fromMs.toNat := by
    rw [hday, hcivil.secToMs _ (by omega) (by omega)]
    unfold nextMidnight
    omega
  have hend : (tools.secToMs (tools.toTimestamp (dateOf ((((fromMs.toNat / 1000 : Nat) : Int) +
      request.brokerUtcOffsetSec) / 86400)) 0 0 0 + 86400 - request.brokerUtcOffsetSec) - 1).toInt =
      nextMidnight request.brokerUtcOffsetSec fromMs.toNat - 1 := by
    rw [Int64.toInt_sub, hsecond, Int64.toInt_one, Int.bmod_eq_of_le (by omega) (by omega)]
  simp only [segmentDayEndMs, hcivil.toDate]
  rw [Lib.int64_toUInt64, hend]
  omega

theorem segmentToMs_toNat (hcivil : tools.Civil) (hvalid : request.valid = true) {fromMs : UInt64}
    (hstart : fromMs.toNat < 2 ^ 53) :
    ((segmentToMs tools request fromMs).toNat : Int) = min (request.toTimeMs.toNat : Int)
      (min (nextMidnight request.brokerUtcOffsetSec fromMs.toNat - 1) (fromMs.toNat + 1800000)) := by
  have hday := segmentDayEndMs_toNat hcivil hvalid hstart
  have hinterval : (tools.secToMs maxIntradeQuoteCheckIntervalSec).toUInt64 = 1800000 := by
    have hms := hcivil.secToMs maxIntradeQuoteCheckIntervalSec (by decide) (by decide)
    have hword := Lib.int64_toUInt64 (tools.secToMs maxIntradeQuoteCheckIntervalSec)
    rw [hms, maxIntradeQuoteCheckIntervalSec] at hword
    have hnat : (1800000 : UInt64).toNat = 1800000 := rfl
    rw [← UInt64.toNat_inj, maxIntradeQuoteCheckIntervalSec, hnat]
    omega
  have hhalf : (fromMs + 1800000).toNat = fromMs.toNat + 1800000 := by
    have hnat : (1800000 : UInt64).toNat = 1800000 := rfl
    rw [UInt64.toNat_add, hnat]
    omega
  have hroom : ¬ fromMs > maxTimeMs - 1800000 := by
    rw [gt_iff_lt, UInt64.lt_iff_toNat_lt, not_lt]
    exact hstart.le.trans (by decide)
  simp only [segmentToMs, hinterval, if_neg hroom]
  simp only [min_def, UInt64.le_iff_toNat_le, hhalf]
  split <;> split <;> omega

/-- The start of the segment after one that ends at `last`. -/
theorem nextStart_toNat {last : UInt64} (hlast : last.toNat < 2 ^ 52) :
    (if last - last % 1000 > maxTimeMs - 1000 then maxTimeMs else last - last % 1000 + 1000).toNat =
      last.toNat / 1000 * 1000 + 1000 := by
  have hmod : (last % 1000).toNat = last.toNat % 1000 := rfl
  have hnat : (1000 : UInt64).toNat = 1000 := rfl
  have hsecond : (last - last % 1000).toNat = last.toNat / 1000 * 1000 := by
    rw [UInt64.toNat_sub_of_le, hmod]
    · omega
    · rw [UInt64.le_iff_toNat_le, hmod]
      exact Nat.mod_le _ _
  have hroom : ¬ last - last % 1000 > maxTimeMs - 1000 := by
    rw [gt_iff_lt, UInt64.lt_iff_toNat_lt, hsecond, not_lt]
    refine le_trans ?_ (show 2 ^ 52 ≤ (maxTimeMs - 1000).toNat by decide)
    omega
  rw [if_neg hroom, UInt64.toNat_add, hsecond, hnat]
  omega

/-! ## Pages of segments -/

theorem find?_foldl_addObservation {observed : List (BrokerQuoteCheckObservation F)}
    (hsorted : observed.Pairwise fun o o' => o.timeMs < o'.timeMs) (observations : OrderedMap UInt64 F) (time : UInt64)
    (price : F) : (observed.foldl addObservation observations).find? time = some price ↔
      ⟨time, price⟩ ∈ observed ∨ observations.find? time = some price ∧ ∀ o ∈ observed, o.timeMs ≠ time := by
  induction observed generalizing observations with
  | nil => simp
  | cons o observed ih =>
    obtain ⟨hfirst, hrest⟩ := List.pairwise_cons.mp hsorted
    rw [List.foldl_cons, ih hrest, addObservation, OrderedMap.find?_assign]
    by_cases htime : time = o.timeMs
    · subst htime
      have hlater : ∀ o' ∈ observed, o'.timeMs ≠ o.timeMs := fun o' ho' heq => by
        have hlt := hfirst o' ho'
        rw [heq] at hlt
        exact lt_irrefl _ hlt
      have hnot : ⟨o.timeMs, price⟩ ∉ observed := fun hmem => hlater _ hmem rfl
      have hprice : (⟨o.timeMs, price⟩ : BrokerQuoteCheckObservation F) = o ↔ o.price = price := by
        cases o
        simp [eq_comm]
      simp only [if_true, Option.some.injEq, hnot, false_or, List.mem_cons, or_false, hprice]
      constructor
      · rintro ⟨hfound, -⟩
        exact .inl hfound
      · rintro (hfound | ⟨-, hother⟩)
        · exact ⟨hfound, hlater⟩
        · exact absurd rfl (hother o (.inl rfl))
    · have hne : ⟨time, price⟩ ≠ o := fun heq => htime (by rw [← heq])
      simp only [if_neg htime, List.mem_cons, hne, false_or, forall_eq_or_imp, ne_eq, Ne.symm htime,
        not_false_eq_true, true_and]

theorem inRange_observation {library : QuoteCheckLibrary F} {content : List Char} {o : BrokerQuoteCheckObservation F}
    (h : o ∈ (parseQuoteCheckHtml library content request).observations) : InRange request o.timeMs.toNat := by
  unfold parseQuoteCheckHtml at h
  dsimp only at h
  split at h
  · simp at h
  · obtain ⟨⟨time, price⟩, hentry, rfl⟩ := List.mem_map.mp h
    exact inRange_collectRow (by simp) time price (OrderedMap.find?_eq_some.mpr hentry)

/-- What is read of the answer for a segment. -/
def segmentPage (tools : QuoteCheckTools F) (segment : BrokerQuoteCheckRequest) (response : Option QuoteCheckResponse) :
    BrokerQuoteCheck F :=
  parseQuoteCheckHtml tools.toQuoteCheckLibrary (response.elim [] (·.content)) segment

/-- A page that is accepted, without malformed rows, and with observations at whole seconds. -/
structure WellFormed (tools : QuoteCheckTools F) (segment : BrokerQuoteCheckRequest)
    (response : Option QuoteCheckResponse) : Prop where
  accepted : QuoteCheckState.refusal tools response = none
  rows : (segmentPage tools segment response).malformedRows = 0
  whole : ∀ o ∈ (segmentPage tools segment response).observations, o.timeMs.toNat % 1000 = 0

theorem segmentPage_sorted (tools : QuoteCheckTools F) (segment : BrokerQuoteCheckRequest)
    (response : Option QuoteCheckResponse) :
    (segmentPage tools segment response).observations.Pairwise fun o o' => o.timeMs < o'.timeMs :=
  parseQuoteCheckHtml_sorted _ _ _

/-- A row that shows a second of the day leaves times at whole seconds, and counts as read. -/
theorem collectRow_shows {library : QuoteCheckLibrary F} (hcivil : library.Civil) (hvalid : request.valid = true)
    {row : List (List Char)} {observation : Int × F} (hrow : RowShows library request row observation)
    (hday : OnDay request observation.1) (hpos : 0 ≤ observation.1) {collected : CollectedRows F}
    (hmalformed : collected.malformedRows = 0)
    (hwhole : ∀ t price, collected.rows.find? t = some price → t.toNat % 1000 = 0) :
    (collectRow library request collected row).malformedRows = 0 ∧
    ∀ t price, (collectRow library request collected row).rows.find? t = some price → t.toNat % 1000 = 0 := by
  constructor
  · obtain ⟨timestamp, -, hread⟩ := readRow_eq hcivil hvalid hrow hday
    rw [collectRow, hread, if_neg (by omega)]
    dsimp only
    split <;> exact hmalformed
  · intro t price hfound
    rw [find?_collectRow hcivil hvalid hrow hday] at hfound
    split at hfound
    · rename_i hin
      have hsecond := hday.whole
      omega
    · exact hwhole t price hfound

theorem foldl_collectRow_shows {library : QuoteCheckLibrary F} (hcivil : library.Civil) (hvalid : request.valid = true)
    {rows : List (List (List Char))} {shown : List (Int × F)}
    (hrows : List.Forall₂ (RowShows library request) rows shown)
    (hday : ∀ o ∈ shown, OnDay request o.1 ∧ 0 ≤ o.1) {collected : CollectedRows F}
    (hmalformed : collected.malformedRows = 0)
    (hwhole : ∀ t price, collected.rows.find? t = some price → t.toNat % 1000 = 0) :
    (rows.foldl (collectRow library request) collected).malformedRows = 0 ∧
    ∀ t price, (rows.foldl (collectRow library request) collected).rows.find? t = some price → t.toNat % 1000 = 0 := by
  induction hrows generalizing collected with
  | nil => exact ⟨hmalformed, hwhole⟩
  | cons hrow _ ih =>
    obtain ⟨hthis, hpos⟩ := hday _ List.mem_cons_self
    obtain ⟨hmalformed', hwhole'⟩ := collectRow_shows hcivil hvalid hrow hthis hpos hmalformed hwhole
    exact ih (fun o ho => hday o (by simp [ho])) hmalformed' hwhole'

/-- A page is well-formed when its rows show seconds of the day of the segment. -/
theorem wellFormed_of_shows (hcivil : tools.Civil) {segment : BrokerQuoteCheckRequest} {response : QuoteCheckResponse}
    (haccepted : QuoteCheckState.refusal tools (some response) = none)
    (hmarkers : markerCount response.content ≤ (tools.legacyRows response.content).length) {shown : List (Int × F)}
    (hrows : List.Forall₂ (RowShows tools.toQuoteCheckLibrary segment)
      (pageRows tools.toQuoteCheckLibrary response.content) shown)
    (hday : ∀ o ∈ shown, OnDay segment o.1 ∧ 0 ≤ o.1) : WellFormed tools segment (some response) := by
  cases hvalid : segment.valid with
  | false =>
    have hnothing : segmentPage tools segment (some response) = { symbol := normalizeSymbolName segment.symbol } := by
      simp [segmentPage, parseQuoteCheckHtml, hvalid]
    exact ⟨haccepted, by rw [hnothing], by simp [hnothing]⟩
  | true =>
    obtain ⟨hmalformed, hwhole⟩ := foldl_collectRow_shows hcivil hvalid hrows hday rfl (show ∀ t price, ({} : CollectedRows F).rows.find? t = some price → _ by simp)
    refine ⟨haccepted, ?_, ?_⟩
    · simp only [segmentPage, parseQuoteCheckHtml, hvalid, Bool.not_true, Bool.false_eq_true, if_false, Option.elim_some,
        hmalformed]
      omega
    · intro o ho
      simp only [segmentPage, parseQuoteCheckHtml, hvalid, Bool.not_true, Bool.false_eq_true, if_false,
        Option.elim_some, List.mem_map, Prod.exists, ← OrderedMap.find?_eq_some] at ho
      obtain ⟨time, price, hfound, rfl⟩ := ho
      exact hwhole time price hfound

/-! ## Segments -/

/-- A segment that goes forward, in the range and in one local day, for half an hour at most. -/
structure GoodSegment (request segment : BrokerQuoteCheckRequest) : Prop where
  forward : segment.fromTimeMs.toNat ≤ segment.toTimeMs.toNat
  from_le : request.fromTimeMs.toNat ≤ segment.fromTimeMs.toNat
  le_to : segment.toTimeMs.toNat ≤ request.toTimeMs.toNat
  sameDay : brokerDayIndex request.brokerUtcOffsetSec segment.fromTimeMs =
    brokerDayIndex request.brokerUtcOffsetSec segment.toTimeMs
  halfHour : segment.toTimeMs.toNat ≤ segment.fromTimeMs.toNat + 1800000

/-- The segment that begins at a time. -/
def segmentAt (tools : QuoteCheckTools F) (request : BrokerQuoteCheckRequest) (fromMs : UInt64) :
    BrokerQuoteCheckRequest :=
  { request with fromTimeMs := fromMs, toTimeMs := segmentToMs tools request fromMs }

theorem goodSegment_segmentAt (hcivil : tools.Civil) (hvalid : request.valid = true) {fromMs : UInt64}
    (hfrom : request.fromTimeMs.toNat ≤ fromMs.toNat) (hstart : fromMs.toNat ≤ request.toTimeMs.toNat)
    (hto : request.toTimeMs.toNat < 2 ^ 52) : GoodSegment request (segmentAt tools request fromMs) := by
  have hend := segmentToMs_toNat hcivil hvalid (by omega : fromMs.toNat < 2 ^ 53)
  have hmidnight := lt_nextMidnight request.brokerUtcOffsetSec fromMs.toNat
  constructor
  · simp only [segmentAt]
    omega
  · exact hfrom
  · simp only [segmentAt]
    omega
  · simp only [segmentAt, brokerDayIndex_eq]
    unfold nextMidnight at hend hmidnight
    omega
  · simp only [segmentAt]
    omega

/-- What is known of segments and of the observations collected from them. -/
structure Collected (tools : QuoteCheckTools F) (request : BrokerQuoteCheckRequest)
    (respond : BrokerQuoteCheckRequest → Option QuoteCheckResponse) (segments : List BrokerQuoteCheckRequest)
    (observations : OrderedMap UInt64 F) (stop : Int) : Prop where
  within : ∀ s ∈ segments, request.fromTimeMs.toNat ≤ s.fromTimeMs.toNat ∧ s.toTimeMs.toNat ≤ request.toTimeMs.toNat
  counted : ∀ x : Int, x % 1000 = 0 → segments.countP (fun s => InRange s x) =
    if request.fromTimeMs.toNat ≤ x ∧ x < stop then 1 else 0
  observed : ∀ time price, observations.find? time = some price ↔
    ∃ s ∈ segments, ⟨time, price⟩ ∈ (segmentPage tools s (respond s)).observations

variable {respond : BrokerQuoteCheckRequest → Option QuoteCheckResponse} {segments : List BrokerQuoteCheckRequest}
  {observations : OrderedMap UInt64 F} {stop : Int}

/-- The next segment goes on where the others stop, up to another stop. -/
theorem Collected.snoc (h : Collected tools request respond segments observations stop)
    {segment : BrokerQuoteCheckRequest} {stop' : Int} (hfrom : (segment.fromTimeMs.toNat : Int) = stop)
    (hbegin : request.fromTimeMs.toNat ≤ stop) (hto : segment.toTimeMs.toNat ≤ request.toTimeMs.toNat)
    (hbefore : ∀ s ∈ segments, (s.toTimeMs.toNat : Int) < stop)
    (hstop : ∀ x : Int, x % 1000 = 0 → (x < stop ∨ InRange segment x ↔ x < stop')) :
    Collected tools request respond (segments ++ [segment])
      ((segmentPage tools segment (respond segment)).observations.foldl addObservation observations) stop' where
  within := by
    intro s hs
    rcases List.mem_append.mp hs with hs | hs
    · exact h.within s hs
    · rw [List.mem_singleton.mp hs]
      exact ⟨by omega, hto⟩
  counted := by
    intro x hx
    have hnext := hstop x hx
    rw [List.countP_append, h.counted x hx, List.countP_singleton]
    simp only [decide_eq_true_eq]
    by_cases hin : InRange segment x
    · have hle := hin.1
      rw [if_neg (by omega), if_pos hin, if_pos ⟨by omega, hnext.mp (.inr hin)⟩]
    · rw [if_neg hin, Nat.add_zero]
      have hlt : x < stop ↔ x < stop' := ⟨fun hlt => hnext.mp (.inl hlt), fun hlt => (hnext.mpr hlt).resolve_right hin⟩
      simp only [hlt]
  observed := by
    intro time price
    rw [find?_foldl_addObservation (segmentPage_sorted _ _ _), h.observed]
    constructor
    · rintro (hmem | ⟨⟨s, hs, hmem⟩, -⟩)
      · exact ⟨segment, by simp, hmem⟩
      · exact ⟨s, by simp [hs], hmem⟩
    · rintro ⟨s, hs, hmem⟩
      rcases List.mem_append.mp hs with hs | hs
      · refine .inr ⟨⟨s, hs, hmem⟩, fun o ho heq => ?_⟩
        have hlate := (inRange_observation ho).1
        have hearly := (inRange_observation hmem).2
        have hend := hbefore s hs
        rw [heq] at hlate
        dsimp only at hearly
        omega
      · rw [List.mem_singleton.mp hs] at hmem
        exact .inl hmem

/-! ## Runs -/

namespace QuoteCheckState

variable {state : QuoteCheckState F} {fromMs : UInt64}

/-- The callback for a well-formed page. -/
theorem onResponse_eq {segment : BrokerQuoteCheckRequest} {response : Option QuoteCheckResponse}
    (hpage : WellFormed tools segment response) :
    state.onResponse tools request segment response =
      let collected := { state with
        observations := (segmentPage tools segment response).observations.foldl addObservation state.observations }
      if segment.toTimeMs < request.toTimeMs then
        collected.runSegment tools request
          (if segment.toTimeMs - segment.toTimeMs % 1000 > maxTimeMs - 1000 then maxTimeMs
            else segment.toTimeMs - segment.toTimeMs % 1000 + 1000)
      else collected.finish (.ok (collected.mergedResult request) ((response.map (·.statusCode)).getD 0)) := by
  have hrows := hpage.rows
  unfold segmentPage at hrows
  unfold onResponse
  rw [hpage.accepted]
  simp only [hrows, gt_iff_lt, lt_irrefl, if_false]
  rfl

/-- A segment is open, and the ones before it are good and end before it. When the last one ended within the last second
of the range, there is nothing left to ask for. -/
structure Open (tools : QuoteCheckTools F) (request : BrokerQuoteCheckRequest)
    (respond : BrokerQuoteCheckRequest → Option QuoteCheckResponse) (state : QuoteCheckState F) (fromMs : UInt64)
    (earlier : List BrokerQuoteCheckRequest) : Prop where
  segments : state.segments = earlier ++ [segmentAt tools request fromMs]
  pending : state.pending = some (segmentAt tools request fromMs)
  calls : state.calls = []
  collected : Collected tools request respond earlier state.observations fromMs.toNat
  good : ∀ s ∈ earlier, GoodSegment request s
  before : ∀ s ∈ earlier, (s.toTimeMs.toNat : Int) < fromMs.toNat
  from_le : request.fromTimeMs.toNat ≤ fromMs.toNat
  place : fromMs.toNat ≤ request.toTimeMs.toNat ∧
      (request.toTimeMs.toNat : Int) < nextMidnight request.brokerUtcOffsetSec fromMs.toNat + 86400000 ∧
      (EndsShort request.brokerUtcOffsetSec fromMs.toNat request.toTimeMs.toNat ↔
        EndsShort request.brokerUtcOffsetSec request.fromTimeMs.toNat request.toTimeMs.toNat) ∨
    request.toTimeMs.toNat < fromMs.toNat ∧ fromMs.toNat = request.toTimeMs.toNat / 1000 * 1000 + 1000 ∧
      EndsShort request.brokerUtcOffsetSec request.fromTimeMs.toNat request.toTimeMs.toNat

/-- The callback was called. -/
structure Done (tools : QuoteCheckTools F) (request : BrokerQuoteCheckRequest)
    (respond : BrokerQuoteCheckRequest → Option QuoteCheckResponse) (state : QuoteCheckState F) : Prop where
  pending : state.pending = none
  calls : ∃ status, state.calls = [.ok (state.mergedResult request) status]
  collected : Collected tools request respond state.segments state.observations (request.toTimeMs.toNat + 1)
  good_iff : (∀ s ∈ state.segments, GoodSegment request s) ↔
    ¬ EndsShort request.brokerUtcOffsetSec request.fromTimeMs.toNat request.toTimeMs.toNat

theorem valid_of_admitted (h : (rejection request : Option (QuoteCheckApiResult F)) = none) : request.valid = true := by
  unfold rejection at h
  cases hvalid : request.valid with
  | true => rfl
  | false => simp [hvalid] at h

/-- A request of one or two days ends before the second midnight. -/
theorem open_start (hadmitted : (rejection request : Option (QuoteCheckApiResult F)) = none) :
    Open tools request respond (start tools request) request.fromTimeMs [] := by
  have hvalid := valid_of_admitted hadmitted
  have hforward : request.fromTimeMs.toNat ≤ request.toTimeMs.toNat := by
    simp only [BrokerQuoteCheckRequest.valid, Bool.and_eq_true, decide_eq_true_eq, ge_iff_le,
      UInt64.le_iff_toNat_le] at hvalid
    exact hvalid.1.1.2
  have hdays : ¬ (dayCount request = 0 ∨ dayCount request > maxIntradeQuoteCheckDays) := by
    intro hdays
    rw [rejection, if_neg (by simp [hvalid]), if_pos hdays] at hadmitted
    cases hadmitted
  have hstart : QuoteCheckState.start tools request =
      ({} : QuoteCheckState F).runSegment tools request request.fromTimeMs := by
    rw [QuoteCheckState.start, hadmitted]
  have htwo : (request.toTimeMs.toNat : Int) <
      nextMidnight request.brokerUtcOffsetSec request.fromTimeMs.toNat + 86400000 := by
    simp only [dayCount, brokerDayIndex_eq, maxIntradeQuoteCheckDays] at hdays
    unfold nextMidnight
    split at hdays <;> omega
  rw [hstart]
  refine ⟨rfl, rfl, rfl, ?_, by simp, by simp, le_rfl, .inl ⟨hforward, htwo, Iff.rfl⟩⟩
  constructor
  · simp
  · intro x _
    rw [if_neg (by omega)]
    rfl
  · simp [runSegment]

/-- The open segment is the last one. -/
theorem Open.finish (hcivil : tools.Civil) (hvalid : request.valid = true) (hto : request.toTimeMs.toNat < 2 ^ 52)
    {earlier : List BrokerQuoteCheckRequest} (h : Open tools request respond state fromMs earlier)
    (hpage : WellFormed tools (segmentAt tools request fromMs) (respond (segmentAt tools request fromMs)))
    (hlast : ¬ (segmentAt tools request fromMs).toTimeMs < request.toTimeMs) :
    Done tools request respond (state.onResponse tools request (segmentAt tools request fromMs)
      (respond (segmentAt tools request fromMs))) := by
  have hbound : fromMs.toNat < 2 ^ 53 := by
    rcases h.place with ⟨hle, -⟩ | ⟨-, heq, -⟩ <;> omega
  have hend := segmentToMs_toNat hcivil hvalid hbound
  have hfrom := h.from_le
  rw [onResponse_eq hpage]
  dsimp only
  rw [if_neg hlast]
  rw [UInt64.lt_iff_toNat_lt, not_lt] at hlast
  change request.toTimeMs.toNat ≤ (segmentToMs tools request fromMs).toNat at hlast
  refine ⟨rfl, ⟨_, congrArg (· ++ _) h.calls⟩, ?_, ?_⟩
  · simp only [QuoteCheckState.finish, h.segments]
    refine h.collected.snoc rfl (by omega) (by simp only [segmentAt]; omega) h.before fun x hx => ?_
    simp only [InRange, segmentAt]
    rcases h.place with ⟨hle, -⟩ | ⟨hlt, heq, -⟩ <;> omega
  · simp only [QuoteCheckState.finish, h.segments, List.forall_mem_append, List.forall_mem_singleton]
    rcases h.place with ⟨hle, -, hiff⟩ | ⟨hlt, -, hshort⟩
    · have hnot : ¬ EndsShort request.brokerUtcOffsetSec fromMs.toNat request.toTimeMs.toNat :=
        not_endsShort_last (by omega) (by omega) (by omega)
      exact iff_of_true ⟨h.good, goodSegment_segmentAt hcivil hvalid hfrom hle hto⟩ (mt hiff.mpr hnot)
    · refine iff_of_false (fun hgood => ?_) (not_not.mpr hshort)
      have hforward := hgood.2.forward
      simp only [segmentAt] at hforward
      omega

/-- Another segment follows, at a later whole second. -/
theorem Open.next (hcivil : tools.Civil) (hvalid : request.valid = true) (hto : request.toTimeMs.toNat < 2 ^ 52)
    {earlier : List BrokerQuoteCheckRequest} (h : Open tools request respond state fromMs earlier)
    (hpage : WellFormed tools (segmentAt tools request fromMs) (respond (segmentAt tools request fromMs)))
    (hmore : (segmentAt tools request fromMs).toTimeMs < request.toTimeMs) :
    ∃ fromMs' : UInt64, fromMs.toNat < fromMs'.toNat ∧ Open tools request respond
      (state.onResponse tools request (segmentAt tools request fromMs) (respond (segmentAt tools request fromMs))) fromMs'
      (earlier ++ [segmentAt tools request fromMs]) := by
  have hbound : fromMs.toNat < 2 ^ 53 := by
    rcases h.place with ⟨hle, -⟩ | ⟨-, heq, -⟩ <;> omega
  have hend := segmentToMs_toNat hcivil hvalid hbound
  have hmidnight := lt_nextMidnight request.brokerUtcOffsetSec fromMs.toNat
  have hfrom := h.from_le
  rw [onResponse_eq hpage]
  dsimp only
  rw [if_pos hmore]
  rw [UInt64.lt_iff_toNat_lt] at hmore
  have hnext := @nextStart_toNat (segmentAt tools request fromMs).toTimeMs (by omega)
  change (segmentToMs tools request fromMs).toNat < request.toTimeMs.toNat at hmore
  change _ = (segmentToMs tools request fromMs).toNat / 1000 * 1000 + 1000 at hnext
  have hin : fromMs.toNat ≤ request.toTimeMs.toNat := by omega
  obtain ⟨-, htwo, hiff⟩ := h.place.resolve_right (by omega)
  have hlast : ((segmentToMs tools request fromMs).toNat : Int) =
      min (nextMidnight request.brokerUtcOffsetSec fromMs.toNat - 1) (fromMs.toNat + 1800000) := by omega
  refine ⟨_, by rw [hnext]; omega, ?_⟩
  constructor
  · simp only [runSegment, h.segments]
    rfl
  · rfl
  · exact h.calls
  · refine h.collected.snoc rfl (by omega) (by simp only [segmentAt]; omega) h.before fun x hx => ?_
    rw [hnext]
    simp only [InRange, segmentAt]
    omega
  · simp only [List.forall_mem_append, List.forall_mem_singleton]
    exact ⟨h.good, goodSegment_segmentAt hcivil hvalid hfrom hin hto⟩
  · simp only [List.forall_mem_append, List.forall_mem_singleton]
    refine ⟨fun s hs => (h.before s hs).trans_le (by rw [hnext]; omega), ?_⟩
    rw [hnext]
    simp only [segmentAt]
    omega
  · rw [hnext]
    omega
  · rw [hnext]
    have hcast : (((segmentToMs tools request fromMs).toNat / 1000 * 1000 + 1000 : Nat) : Int) =
        ((segmentToMs tools request fromMs).toNat : Int) / 1000 * 1000 + 1000 := by omega
    rw [hcast]
    by_cases hle : (segmentToMs tools request fromMs).toNat / 1000 * 1000 + 1000 ≤ request.toTimeMs.toNat
    · have hshort := endsShort_next htwo hlast (by omega)
      have hlater : nextMidnight request.brokerUtcOffsetSec fromMs.toNat ≤ nextMidnight request.brokerUtcOffsetSec
          (((segmentToMs tools request fromMs).toNat : Int) / 1000 * 1000 + 1000) := by
        unfold nextMidnight
        omega
      exact .inl ⟨hle, by omega, hshort.trans hiff⟩
    · have hwhole := nextMidnight_whole request.brokerUtcOffsetSec fromMs.toNat
      have hhalf : ((segmentToMs tools request fromMs).toNat : Int) = fromMs.toNat + 1800000 := by omega
      refine .inr ⟨by omega, by omega, hiff.mp (endsShort_of_late ?_ ?_ ?_)⟩ <;> omega

theorem Done.step (h : Done tools request respond state) : state.step tools request respond = state := by
  unfold QuoteCheckState.step
  rw [h.pending]

/-- Segments begin later and later until the callback is called. -/
theorem open_or_done_run (hcivil : tools.Civil)
    (hadmitted : (rejection request : Option (QuoteCheckApiResult F)) = none) (hto : request.toTimeMs.toNat < 2 ^ 52)
    (hpages : ∀ n, ∀ s ∈ (run tools request respond n).segments, WellFormed tools s (respond s)) (n : Nat) :
    (∃ fromMs earlier, Open tools request respond (run tools request respond n) fromMs earlier ∧
      request.fromTimeMs.toNat + n ≤ fromMs.toNat) ∨
    Done tools request respond (run tools request respond n) := by
  have hvalid := valid_of_admitted hadmitted
  induction n with
  | zero => exact .inl ⟨_, _, open_start hadmitted, le_rfl⟩
  | succ n ih =>
    have hstep : run tools request respond (n + 1) = (run tools request respond n).step tools request respond :=
      Function.iterate_succ_apply' _ _ _
    rw [hstep]
    rcases ih with ⟨fromMs, earlier, hopen, hlate⟩ | hdone
    · have hpage := hpages n (segmentAt tools request fromMs) (by simp [hopen.segments])
      rw [QuoteCheckState.step, hopen.pending]
      by_cases hmore : (segmentAt tools request fromMs).toTimeMs < request.toTimeMs
      · obtain ⟨fromMs', hlt, hnext⟩ := hopen.next hcivil hvalid hto hpage hmore
        exact .inl ⟨fromMs', _, hnext, by omega⟩
      · exact .inr (hopen.finish hcivil hvalid hto hpage hmore)
    · rw [hdone.step]
      exact .inr hdone

theorem exists_done_run (hcivil : tools.Civil)
    (hadmitted : (rejection request : Option (QuoteCheckApiResult F)) = none) (hto : request.toTimeMs.toNat < 2 ^ 52)
    (hpages : ∀ n, ∀ s ∈ (run tools request respond n).segments, WellFormed tools s (respond s)) :
    ∃ last, Done tools request respond (run tools request respond last) ∧
      ∀ n, last ≤ n → run tools request respond n = run tools request respond last := by
  have hdone : Done tools request respond (run tools request respond (request.toTimeMs.toNat + 1001)) := by
    rcases open_or_done_run hcivil hadmitted hto hpages (request.toTimeMs.toNat + 1001) with ⟨fromMs, _, hopen, hlate⟩ | h
    · rcases hopen.place with ⟨hle, -⟩ | ⟨-, heq, -⟩ <;> omega
    · exact h
  refine ⟨_, hdone, fun n hn => ?_⟩
  induction n, hn using Nat.le_induction with
  | base => rfl
  | succ n _ ih =>
    have hstep : run tools request respond (n + 1) = (run tools request respond n).step tools request respond :=
      Function.iterate_succ_apply' _ _ _
    rw [hstep, ih, hdone.step]

theorem mem_mergedResult {o : BrokerQuoteCheckObservation F} :
    o ∈ (state.mergedResult request).observations ↔ state.observations.find? o.timeMs = some o.price := by
  simp only [mergedResult, List.mem_map, Prod.exists, OrderedMap.find?_eq_some]
  constructor
  · rintro ⟨time, price, hmem, rfl⟩
    exact hmem
  · intro hmem
    exact ⟨_, _, hmem, rfl⟩

theorem mergedResult_sorted :
    (state.mergedResult request).observations.Pairwise fun o o' => o.timeMs < o'.timeMs :=
  List.pairwise_map.mpr state.observations.sorted

/-- Nothing else is observed than whole seconds of the range. -/
theorem Done.complete_iff (hvalid : request.valid = true) (h : Done tools request respond state)
    (hpages : ∀ s ∈ state.segments, WellFormed tools s (respond s)) :
    (state.mergedResult request).rangeComplete = true ↔ ∀ t : UInt64, InRange request t.toNat → t.toNat % 1000 = 0 →
      t ∈ (state.mergedResult request).observations.map (·.timeMs) := by
  have hcover := coversRange_iff hvalid (@mergedResult_sorted _ request state)
  have hobserved : ∀ t ∈ (state.mergedResult request).observations.map (·.timeMs),
      InRange request t.toNat ∧ t.toNat % 1000 = 0 := by
    intro t ht
    obtain ⟨o, ho, rfl⟩ := List.mem_map.mp ht
    obtain ⟨s, hs, hmem⟩ := (h.collected.observed _ _).mp (mem_mergedResult.mp ho)
    obtain ⟨hlow, hhigh⟩ := inRange_observation hmem
    obtain ⟨hfrom, hto⟩ := h.collected.within s hs
    dsimp only at hlow hhigh
    exact ⟨⟨by omega, by omega⟩, (hpages s hs).whole _ hmem⟩
  change coversRange request (state.mergedResult request).observations = true ↔ _
  rw [hcover]
  exact ⟨fun hall t hin hwhole => (hall t).mpr ⟨hin, hwhole⟩, fun hall t => ⟨hobserved t, fun ht => hall t ht.1 ht.2⟩⟩

end QuoteCheckState

end OptionX.IntradeBar
