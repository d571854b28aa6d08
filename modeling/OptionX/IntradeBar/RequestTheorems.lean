import OptionX.IntradeBar.Lemmas.LoginRedirect
import OptionX.IntradeBar.Lemmas.QuoteCheckSegments
import OptionX.IntradeBar.Lemmas.TradeHistory
import OptionX.IntradeBar.Lemmas.TradeHistoryMerge

/-!
# Theorems about requests to the broker

- `tradeHistory_complete`: the trade history asks for at most two hundred pages, ends with one call, and is complete.
- `mergeTradeHistory_iff`: merging two sources keeps identified records and depends on no order when no record can lose
  all rows that match it, and the rows of one record fill it in alike.
- `login_confined_iff`: login redirects stay at trusted origins when no relative location goes on with the host.
- `quoteCheck_exact`: a page of quotes gives its observations within the range, and is complete when it has all seconds.
- `quoteCheckSegments_iff`: the segments of a quote check partition its range when it does not end just behind a half hour.
-/

namespace OptionX.IntradeBar

/-! ## Trade history -/

namespace HtmlHistory

variable {F : Type}

/-- Whatever the server answers, at most two hundred pages are asked for, no cursor twice, and then the callback was
called once. For a chain of pages whose times do not increase, the result is the first record of each id and the records
without an id, as far as they lie in the range, in the order of the pages. -/
theorem tradeHistory_complete (history : HtmlHistory F) (respond : PageRequest → PageResponse) :
    (∀ n, (history.run respond n).requests.length ≤ maxHtmlHistoryPages ∧ (history.run respond n).requests.Nodup ∧
      (history.run respond n).calls.length ≤ 1) ∧
    (∀ n, maxHtmlHistoryPages ≤ n → (history.run respond n).pending = none ∧ (history.run respond n).calls.length = 1) ∧
    ∀ pages, history.IsChain respond .home pages → pages.length < maxHtmlHistoryPages →
      (∀ page ∈ pages, page.records ≠ []) → (pages.map (·.nextLast)).Nodup →
      (∀ r ∈ pages.flatMap (·.records), 0 < selectTradeHistoryTimestamp r history.request.timeField) →
      TimeOrdered history.request (pages.flatMap (·.records)) →
      ∃ status, ∀ n, maxHtmlHistoryPages ≤ n → (history.run respond n).calls =
        [.ok (applyTradeHistoryRequestMetadata
          ((firstRecords [] (pages.flatMap (·.records))).filter (inRange history.request)) history.request) status] := by
  refine ⟨fun n => ?_, fun n hn => ?_, fun pages => run_chain⟩
  · have hinv := inv_run history respond n
    refine ⟨?_, ?_, ?_⟩
    · have := hinv.bounded
      simp only [hinv.requests, List.length_cons, List.length_map]
      omega
    · rw [hinv.requests, List.nodup_cons]
      exact ⟨by simp, hinv.distinct.map fun a b h => PageRequest.loadMore.inj h⟩
    · cases hpending : (history.run respond n).pending with
      | none => exact (hinv.finished hpending).le
      | some asked => simp [(hinv.running (by simp [hpending])).2.1]
  · exact ⟨run_pending hn, (inv_run history respond n).finished (run_pending hn)⟩

/-! ### A chain of one page -/

/-- A row `"<tr" t "</tr>"` is a record with id 7 that was closed at `t`. -/
def sevenParsers : HtmlParsers Nat where
  nextLast _ := none
  historyBlock content := content
  attrRow row _ := .ok <| match row.drop 3 with
    | [time] => some { Records.TradeRecord.blank Nat with optionId := 7, closeDate := time.toNat }
    | _ => none
  tradeCloseTableRow _ _ := .ok none

/-- The trades that were closed in the first 50 ms. -/
def sevenHistory : HtmlHistory Nat where
  request := { startMs := 1, stopMs := 50 }
  accountType := .real
  parsers := sevenParsers
  callbackThrows _ := none

def sevenRecord (time : UInt8) : HistoryRecord Nat :=
  { Records.TradeRecord.blank Nat with optionId := 7, closeDate := time.toNat }

/-- The first page has one row for 90 ms and one for 40 ms. -/
def sevenResponse : PageRequest → PageResponse := fun _ =>
  .valid 200 (rowOpen ++ [90] ++ rowClose ++ rowOpen ++ [40] ++ rowClose)

def sevenPages : List (TradeHistoryHtmlPage Nat) := [⟨[sevenRecord 90, sevenRecord 40], []⟩]

theorem sevenChain : sevenHistory.IsChain sevenResponse .home sevenPages := by
  have hrows : historyRows (rowOpen ++ [90] ++ rowClose ++ rowOpen ++ [40] ++ rowClose) =
      [rowOpen ++ [90], rowOpen ++ [40]] := by
    simp [historyRows, rowOpen, rowClose, Lib.Strings.cut]
  refine ⟨⟨200, ?_⟩, rfl⟩
  simp only [pageAt, sevenResponse, sevenHistory, parseTradeHistoryHtmlPage, sevenParsers, hrows]
  rfl

theorem tradeHistory_complete_seven : ∃ status, ∀ n, maxHtmlHistoryPages ≤ n →
    (sevenHistory.run sevenResponse n).calls =
      [.ok (applyTradeHistoryRequestMetadata
        ((firstRecords [] [sevenRecord 90, sevenRecord 40]).filter (inRange sevenHistory.request)) sevenHistory.request)
        status] :=
  (tradeHistory_complete sevenHistory sevenResponse).2.2 sevenPages sevenChain (by decide) (by simp [sevenPages])
    (by simp [sevenPages]) (by decide) (by unfold TimeOrdered; decide)

/-- The first record with id 7 lies behind the range, and hides the one within. -/
theorem tradeHistory_hiddenRecord :
    sevenHistory.IsChain sevenResponse .home sevenPages ∧
    (∀ r ∈ sevenPages.flatMap (·.records), 0 < selectTradeHistoryTimestamp r sevenHistory.request.timeField) ∧
    TimeOrdered sevenHistory.request (sevenPages.flatMap (·.records)) ∧
    ¬ ∃ status, ∀ n, maxHtmlHistoryPages ≤ n → (sevenHistory.run sevenResponse n).calls =
      [.ok (applyTradeHistoryRequestMetadata
        (firstRecords [] ((sevenPages.flatMap (·.records)).filter (inRange sevenHistory.request)))
        sevenHistory.request) status] := by
  have hpos : ∀ r ∈ sevenPages.flatMap (·.records),
      0 < selectTradeHistoryTimestamp r sevenHistory.request.timeField := by decide
  have htimes : TimeOrdered sevenHistory.request (sevenPages.flatMap (·.records)) := by unfold TimeOrdered; decide
  refine ⟨sevenChain, hpos, htimes, ?_⟩
  rintro ⟨status', hclaimed⟩
  obtain ⟨status, hresult⟩ :=
    run_chain sevenChain (by decide) (by simp [sevenPages]) (by simp [sevenPages]) hpos htimes
  have heq := (hclaimed _ le_rfl).symm.trans (hresult _ le_rfl)
  have hclaimedRecords : applyTradeHistoryRequestMetadata
      (firstRecords [] ((sevenPages.flatMap (·.records)).filter (inRange sevenHistory.request)))
      sevenHistory.request = [sevenRecord 40] := rfl
  have hrecords : applyTradeHistoryRequestMetadata
      ((firstRecords [] (sevenPages.flatMap (·.records))).filter (inRange sevenHistory.request))
      sevenHistory.request = [] := rfl
  rw [hclaimedRecords, hrecords] at heq
  cases heq

end HtmlHistory

/-! ## Trade history from two sources -/

section Merge

open Lib.GreedyMatching (Kin Lost RowAlike not_lost_of_own orderFree_iff pairs_fst_sublist pairs_snd_subperm)

variable {F : Type}

/-- Rows are used once, and set fields stay. Identified records are kept in every order, and the records are the same in
every order as far as rows match one record without id at most, exactly when rows cannot go to other records such that none
is left for an identified one, or for those that lead to some record, and the rows of one record fill it in alike. -/
theorem mergeTradeHistory_iff (tests : PriceTests F) (hlawful : tests.Lawful) (csv html : List (BrokerTradeRecord F))
    (hcsv : DistinctIds csv) (hhtml : DistinctIds html) :
    mergeTradeHistoryCsvWithHtml tests csv html =
      (mergedPairs tests csv html).map (fun q => enrichRecord tests q.1 q.2) ∧
    ((mergedPairs tests csv html).map Prod.fst).Sublist csv ∧
    ((mergedPairs tests csv html).map Prod.snd).Subperm html ∧
    (∀ q ∈ mergedPairs tests csv html, KeepsSet tests q.1 (enrichRecord tests q.1 q.2)) ∧
    (KeepsIdentified tests csv html ∧ (MatchesOneWithoutId tests csv html →
        ∀ csv' html' : List (BrokerTradeRecord F), csv'.Perm csv → html'.Perm html →
          ∀ r, r ∈ mergeTradeHistoryCsvWithHtml tests csv' html' ↔ r ∈ mergeTradeHistoryCsvWithHtml tests csv html) ↔
      (∀ c ∈ csv, c.optionId ≠ 0 → (∃ h ∈ html, h.optionId = c.optionId) →
        ¬ Lost (recordsMatch tests) csv html (· = c)) ∧
      (MatchesOneWithoutId tests csv html → RowAlike (recordsMatch tests) (enrichRecord tests) csv html ∧
        ∀ c ∈ csv, ∀ h ∈ html, recordsMatch tests c h = true →
          ¬ Lost (recordsMatch tests) csv html
            (Kin (recordsMatch tests) (enrichRecord tests) html (enrichRecord tests c h)))) := by
  refine ⟨mergeTradeHistoryCsvWithHtml_eq tests csv html, pairs_fst_sublist _ _ _, pairs_snd_subperm _ _ _,
    fun q _ => keepsSet_enrichRecord tests q.1 q.2, ?_⟩
  rw [← keepsIdentified_iff, orderFree_iff_records]
  constructor
  · rintro ⟨hkept, hfree⟩
    refine ⟨hkept, fun hone => ?_⟩
    have hrow := rowAlike_of_orderFree hlawful hcsv hhtml hone (hfree hone) hkept
    exact ⟨hrow, (orderFree_iff hrow).mp (hfree hone)⟩
  · rintro ⟨hkept, hone⟩
    exact ⟨hkept, fun h => (orderFree_iff (hone h).1).mpr (hone h).2⟩

/-- Prices in units of the tolerance. -/
def unitTests : PriceTests Int := ⟨(0 < ·), (· = 0), fun p q => 1 < |p - q|⟩

theorem lawful_unitTests : unitTests.Lawful := by
  constructor
  · intro p hp
    simp only [unitTests, decide_eq_true_eq] at hp
    simp only [unitTests, decide_eq_false_iff_not]
    omega
  · simp [unitTests]

def eurusd (optionId amount : Int) : BrokerTradeRecord Int :=
  { Records.TradeRecord.blank Int with
    optionId, amount, symbol := "EURUSD", openDate := 1000, openPrice := 107001, closePrice := 107002 }

/-- One record with its row. -/
theorem mergeTradeHistory_iff_single : KeepsIdentified unitTests [eurusd 5 20] [eurusd 5 0] := by
  have hmatch : recordsMatch unitTests (eurusd 5 20) (eurusd 5 0) = true := rfl
  refine ((mergeTradeHistory_iff unitTests lawful_unitTests [eurusd 5 20] [eurusd 5 0] (List.pairwise_singleton _ _)
    (List.pairwise_singleton _ _)).2.2.2.2.mpr ⟨?_, fun _ => ⟨?_, ?_⟩⟩).1
  · simp only [List.forall_mem_singleton]
    exact fun _ _ => not_lost_of_own (by simp) (by simp) hmatch rfl (by simp)
  · intro c _ h hh h' hh' _ _
    rw [List.mem_singleton.mp hh, List.mem_singleton.mp hh']
  · simp only [List.forall_mem_singleton]
    exact fun _ => not_lost_of_own (by simp) (by simp) hmatch ⟨_, by simp, hmatch, rfl⟩
      fun c' hc' _ => by
        rw [List.mem_singleton.mp hc']
        exact ⟨_, by simp, hmatch, rfl⟩

/-- The record without id takes the row of the other, which is then dropped. -/
theorem mergeTradeHistory_drops :
    DistinctIds [eurusd 0 10, eurusd 5 20] ∧ DistinctIds [eurusd 5 0] ∧
    mergeTradeHistoryCsvWithHtml unitTests [eurusd 0 10, eurusd 5 20] [eurusd 5 0] = [eurusd 5 10] ∧
    ¬ KeepsSet unitTests (eurusd 5 20) (eurusd 5 10) ∧
    mergeTradeHistoryCsvWithHtml unitTests [eurusd 5 20, eurusd 0 10] [eurusd 5 0] = [eurusd 5 20] := by
  refine ⟨by simp [DistinctIds, eurusd], List.pairwise_singleton _ _, rfl, fun hkeeps => ?_, rfl⟩
  have hamount := congrArg (·.amount) hkeeps.others
  exact absurd hamount (by decide)

end Merge

/-! ## Login redirects -/

namespace LoginRedirect

open TradingView (text)

/-- Whatever the server answers, at most six requests go to the original host and to classified origins, and then the
callback was called once. Requests keep their origin and the split of their URL, and calls find the hosts restored, when
the targets that are followed are good and a first URL that is refused came with the hosts in place. -/
theorem login_confined_iff (login : LoginRedirect) (hosts : Hosts) (respond : List LoginRequest → Option HttpResponse)
    (htrusted : classifyIntradeLoginOrigin login.originalHost ≠ .unknown) :
    (∀ n, (login.run hosts respond n).requests.length ≤ 6 ∧ (login.run hosts respond n).calls.length ≤ 1 ∧
      ∀ r ∈ (login.run hosts respond n).requests, classifyIntradeLoginOrigin r.origin ≠ .unknown) ∧
    (∀ n, 6 ≤ n → (login.run hosts respond n).pending = none ∧ (login.run hosts respond n).calls.length = 1) ∧
    ((∀ n, (∀ r ∈ (login.run hosts respond n).requests, r.Confined ∧ r.SplitExact) ∧
        ((login.run hosts respond n).calls ≠ [] → login.Restored (login.run hosts respond n).toHosts)) ↔
      (∀ n, ∀ r ∈ (login.run hosts respond n).requests, GoodTarget r.target) ∧
        (login.Refused → login.Restored hosts)) := by
  have hinv := inv_run htrusted hosts respond
  refine ⟨fun n => ⟨(hinv n).bounded, ?_, fun r hr => ((hinv n).resolved r hr).trusted⟩, fun n hn => ?_, ?_⟩
  · cases hpending : (login.run hosts respond n).pending with
    | none => exact ((hinv n).finished hpending).1.le
    | some opened => simp [((hinv n).running opened hpending).1]
  · cases hpending : (login.run hosts respond n).pending with
    | none => exact ⟨rfl, ((hinv n).finished hpending).1⟩
    | some opened =>
      have hlength := ((hinv n).running opened hpending).2.2.1
      have hbounded := (hinv n).bounded
      omega
  · constructor
    · intro hkept
      refine ⟨fun n r hr => ((hinv n).resolved r hr).iff_goodTarget.mp ((hkept n).1 r hr), fun hrefused => ?_⟩
      obtain ⟨hcalls, hhosts⟩ := start_of_refused hosts hrefused
      have := (hkept 0).2 hcalls
      rwa [run, Function.iterate_zero_apply, hhosts] at this
    · rintro ⟨hgood, hrefused⟩ n
      refine ⟨fun r hr => ((hinv n).resolved r hr).iff_goodTarget.mpr (hgood n r hr), fun hcalls => ?_⟩
      cases hpending : (login.run hosts respond n).pending with
      | some opened => exact absurd ((hinv n).running opened hpending).1 hcalls
      | none =>
        by_cases hasked : (login.run hosts respond n).requests = []
        · obtain ⟨href, hhosts⟩ := (hinv n).unasked hasked
          rw [hhosts]
          exact hrefused href
        · exact ((hinv n).finished hpending).2 hasked

/-- A broker without cookies and pages. -/
def plainTools : LoginTools where
  mergeSetCookies cookies _ := cookies
  hasCookie _ _ := false
  parseCookies _ := none
  describeCookieNames _ := []
  isModernIntradeLandingPage _ := false
  validateDdosProtection _ := true
  describeResponseError _ := []

def intradeBar : Text := text "https://intrade.bar"

def intradeHosts : Hosts := ⟨intradeBar, intradeBar, intradeBar, intradeBar⟩

def intradeLogin (redirectUrl : Text) : LoginRedirect := ⟨plainTools, intradeBar, redirectUrl, [], []⟩

theorem login_confined_iff_intradeBar :
    ((intradeLogin (text "/account")).run intradeHosts (fun _ => none) 6).calls.length = 1 :=
  ((login_confined_iff (intradeLogin (text "/account")) intradeHosts (fun _ => none) (by decide)).2.1 6 le_rfl).2

/-- A relative location that goes on with the host sends the cookies to another authority. -/
theorem login_leavesOrigin :
    classifyIntradeLoginOrigin (intradeLogin (text ".evil.com/")).originalHost = .legacy ∧
    ((intradeLogin (text ".evil.com/")).start intradeHosts).requests.map (fun r =>
      parseLoginRedirectOrigin (r.origin ++ r.path)) = [some (text "https://intrade.bar.evil.com")] := by
  decide

end LoginRedirect

/-! ## Quote checks -/

section QuoteCheck

open Lib.Civil (dateOf dayNumber dayNumber_dateOf)
open Lib.Decimal (value)

variable {F : Type} {library : QuoteCheckLibrary F} {request : BrokerQuoteCheckRequest}

/-- A page with one row for each observation of the day, in any order, gives the observations within the range in time
order, as long as their times fit signed milliseconds. Any page is complete when no row is malformed and its times are the
whole seconds of the range. -/
theorem quoteCheck_exact (hcivil : library.Civil) (hvalid : request.valid = true) (content : List Char) :
    (∀ observations : List (Int × F), (observations.map Prod.fst).Nodup → (∀ o ∈ observations, OnDay request o.1) →
      List.Forall₂ (RowShows library request) (pageRows library content) observations →
      ((parseQuoteCheckHtml library content request).observations.Pairwise fun a b => a.timeMs < b.timeMs) ∧
      ((parseQuoteCheckHtml library content request).observations.map fun o => ((o.timeMs.toNat : Int), o.price)).Perm
        (observations.filter fun o => InRange request o.1)) ∧
    ((parseQuoteCheckHtml library content request).rangeComplete = true ↔
      (parseQuoteCheckHtml library content request).malformedRows = 0 ∧
      ∀ t, t ∈ (parseQuoteCheckHtml library content request).observations.map (·.timeMs) ↔
        InRange request t.toNat ∧ t.toNat % 1000 = 0) := by
  constructor
  · intro observations hdistinct hday hrows
    exact ⟨parseQuoteCheckHtml_sorted library content request, parseQuoteCheckHtml_perm hcivil hvalid hdistinct hday hrows⟩
  · exact parseQuoteCheckHtml_complete hvalid library content

/-- The civil calendar, with pages that have the same rows whatever they contain and prices without fractions. -/
def civilLibrary (rows : List (List (List Char))) : QuoteCheckLibrary Nat where
  legacyRows _ := []
  currentRows _ := rows
  parseDoubleStrict text := some (value text)
  toDate sec := dateOf (sec / 86400)
  toTimestamp date hour minute second := 86400 * dayNumber date + 3600 * hour + 60 * minute + second
  secToMs sec := Int64.ofInt (1000 * sec)

theorem civil_civilLibrary (rows : List (List (List Char))) : (civilLibrary rows).Civil where
  toDate _ := rfl
  toTimestamp days hour minute second _ _ _ _ _ _ := by simp [civilLibrary, dayNumber_dateOf]
  secToMs _ hl hu := Int64.toInt_ofInt_of_le hl hu

/-- Two rows, the later one first and without its date. -/
def morningRows : List (List (List Char)) :=
  [[[], "03:00:02".toList, [], "7".toList, []], [[], "03:00:01, 01 Jan 1970".toList, [], "5".toList, []]]

def morningRequest : BrokerQuoteCheckRequest := { symbol := "EURUSD", fromTimeMs := 500, toTimeMs := 2000 }

theorem pageRows_civilLibrary (rows : List (List (List Char))) : pageRows (civilLibrary rows) [] = rows := by
  simp [pageRows, civilLibrary, markerCount, Lib.Strings.cut, rowMarker]

theorem isClock_morning {second : List Char} (h : second = ['0', '1'] ∨ second = ['0', '2']) :
    IsClock (10800 + value second) ['0', '3'] ['0', '0'] second := by
  rcases h with rfl | rfl <;> constructor <;> constructor <;> simp [Lib.Decimal.value, Lib.Decimal.digitValue]

theorem morningRows_show : List.Forall₂ (RowShows (civilLibrary morningRows) morningRequest) morningRows
    [(2000, 7), (1000, 5)] := by
  have hsecond : trimCopy "03:00:02".toList = timeText ['0', '3'] ['0', '0'] ['0', '2'] := by decide
  have hfirst : trimCopy "03:00:01, 01 Jan 1970".toList = timeText ['0', '3'] ['0', '0'] ['0', '1'] ++
      ',' :: ' ' :: (['0', '1'] ++ ' ' :: (['J', 'a', 'n'] ++ ' ' :: ['1', '9', '7', '0'])) := by decide
  refine .cons ⟨_, _, _, _, _, rfl, ?_, rfl⟩ (.cons ⟨_, _, _, _, _, rfl, ?_, rfl⟩ .nil)
  · rw [hsecond]
    exact .timeOnly (isClock_morning (.inr rfl))
  · rw [hfirst]
    apply Shows.namedMonth (isClock_morning (.inl rfl))
    · exact ⟨by simp, by decide, by decide, by decide⟩
    · exact ⟨by simp, rfl, 0, rfl, by decide⟩
    · exact .inl ⟨by simp, by decide, by decide, by decide⟩

theorem quoteCheck_exact_morning :
    ((parseQuoteCheckHtml (civilLibrary morningRows) [] morningRequest).observations.map
      fun o => ((o.timeMs.toNat : Int), o.price)).Perm [(2000, 7), (1000, 5)] := by
  have hday : ∀ o ∈ [((2000 : Int), 7), (1000, 5)], OnDay morningRequest o.1 := by
    intro o ho
    simp at ho
    rcases ho with rfl | rfl <;> constructor <;> decide
  exact ((quoteCheck_exact (civil_civilLibrary morningRows) (by decide) []).1 [(2000, 7), (1000, 5)] (by decide) hday
    (by rw [pageRows_civilLibrary]; exact morningRows_show)).2

/-! ### Times behind signed milliseconds -/

def farRow : List (List Char) := [[], "07:12:56".toList, [], "7".toList, []]

/-- The first whole second behind the signed milliseconds. -/
def farTime : Int := 9223372036854776000

def farRequest : BrokerQuoteCheckRequest :=
  { symbol := "EURUSD", fromTimeMs := 9223372036854776000, toTimeMs := 9223372036854776000, brokerUtcOffsetSec := 0 }

/-- The row shows the one second of the request, and is lost. -/
theorem quoteCheck_farTime :
    (civilLibrary [farRow]).Civil ∧ farRequest.valid = true ∧ pageRows (civilLibrary [farRow]) [] = [farRow] ∧
    RowShows (civilLibrary [farRow]) farRequest farRow (farTime, 7) ∧
    InRange farRequest farTime ∧ farTime % 1000 = 0 ∧
    (farTime / 1000 + farRequest.brokerUtcOffsetSec) / 86400 = localFromSec farRequest / 86400 ∧
    ¬ ((parseQuoteCheckHtml (civilLibrary [farRow]) [] farRequest).observations.map
      fun o => ((o.timeMs.toNat : Int), o.price)).Perm [(farTime, 7)] := by
  have htime : trimCopy "07:12:56".toList = timeText ['0', '7'] ['1', '2'] ['5', '6'] := by decide
  have hshows : RowShows (civilLibrary [farRow]) farRequest farRow (farTime, 7) := by
    refine ⟨_, _, _, _, _, rfl, ?_, rfl⟩
    rw [htime]
    exact .timeOnly ⟨⟨by simp, by decide, by decide, by decide⟩, ⟨by simp, by decide, by decide, by decide⟩,
      ⟨by simp, by decide, by decide, by decide⟩⟩
  have hlost : ([farRow].foldl (collectRow (civilLibrary [farRow]) farRequest) {}).rows.entries = [] := by decide
  have hvalid : farRequest.valid = true := by decide
  refine ⟨civil_civilLibrary _, hvalid, pageRows_civilLibrary _, hshows, by decide, by decide, by decide, fun hperm => ?_⟩
  simp only [parseQuoteCheckHtml, hvalid, Bool.not_true, Bool.false_eq_true, if_false, pageRows_civilLibrary, hlost,
    List.map_nil] at hperm
  exact absurd hperm.length_eq (by simp)

end QuoteCheck

/-! ## Segments of a quote check -/

section QuoteCheckSegments

open QuoteCheckState

variable {F : Type}

/-- Well-formed pages lead to finitely many segments and one call, with each whole second of the range in exactly one
segment, the observations of all segments, and a complete range when every whole second was observed. The segments are
good when the range does not end in the same second as a half hour, and after it. -/
theorem quoteCheckSegments_iff (tools : QuoteCheckTools F) (hcivil : tools.Civil) (request : BrokerQuoteCheckRequest)
    (hadmitted : (rejection request : Option (QuoteCheckApiResult F)) = none) (hto : request.toTimeMs.toNat < 2 ^ 52)
    (respond : BrokerQuoteCheckRequest → Option QuoteCheckResponse)
    (hpages : ∀ n, ∀ s ∈ (run tools request respond n).segments, WellFormed tools s (respond s)) :
    ∃ last : QuoteCheckState F, (∃ enough, ∀ n, enough ≤ n → run tools request respond n = last) ∧
      last.pending = none ∧
      (∃ check status, last.calls = [.ok check status] ∧
        (check.observations.Pairwise fun o o' => o.timeMs < o'.timeMs) ∧
        (∀ o, o ∈ check.observations ↔ ∃ s ∈ last.segments, o ∈ (segmentPage tools s (respond s)).observations) ∧
        (check.rangeComplete = true ↔ ∀ t : UInt64, InRange request t.toNat → t.toNat % 1000 = 0 →
          t ∈ check.observations.map (·.timeMs))) ∧
      (∀ x : Int, x % 1000 = 0 → InRange request x → last.segments.countP (fun s => InRange s x) = 1) ∧
      ((∀ s ∈ last.segments, GoodSegment request s) ↔
        ¬ EndsShort request.brokerUtcOffsetSec request.fromTimeMs.toNat request.toTimeMs.toNat) := by
  obtain ⟨enough, hdone, hlast⟩ := exists_done_run hcivil hadmitted hto hpages
  obtain ⟨status, hcalls⟩ := hdone.calls
  refine ⟨_, ⟨enough, hlast⟩, hdone.pending, ⟨_, status, hcalls, mergedResult_sorted, fun o => ?_, ?_⟩, fun x hx hin => ?_,
    hdone.good_iff⟩
  · rw [mem_mergedResult, hdone.collected.observed]
  · exact hdone.complete_iff (valid_of_admitted hadmitted) (hpages enough)
  · have hle := hin.1
    have hle' := hin.2
    rw [hdone.collected.counted x hx, if_pos ⟨hle, by omega⟩]

/-- The broker of `civilLibrary` without rows, whose answers pass all checks. -/
def emptyTools : QuoteCheckTools Nat where
  toQuoteCheckLibrary := civilLibrary []
  validateStatus _ := true
  validateDdosProtection _ := true
  describeResponseError _ fallback := fallback
  isIntradeLoginPage _ := false

def emptyResponse : BrokerQuoteCheckRequest → Option QuoteCheckResponse := fun _ => some ⟨200, []⟩

theorem wellFormed_empty (segment : BrokerQuoteCheckRequest) : WellFormed emptyTools segment (emptyResponse segment) := by
  have hrows : List.Forall₂ (RowShows emptyTools.toQuoteCheckLibrary segment)
      (pageRows emptyTools.toQuoteCheckLibrary []) [] := by
    rw [show pageRows emptyTools.toQuoteCheckLibrary [] = [] from pageRows_civilLibrary []]
    exact .nil
  have hmarkers : markerCount [] ≤ (emptyTools.legacyRows []).length := by
    simp [markerCount, Lib.Strings.cut, rowMarker]
  exact wellFormed_of_shows (civil_civilLibrary []) rfl hmarkers hrows (by simp)

/-- More than an hour, which takes three segments. -/
def hourRequest : BrokerQuoteCheckRequest := { symbol := "EURUSD", fromTimeMs := 1000, toTimeMs := 4000000 }

theorem quoteCheckSegments_iff_hour : ∃ last : QuoteCheckState Nat,
    (∃ enough, ∀ n, enough ≤ n → run emptyTools hourRequest emptyResponse n = last) ∧
    ∀ s ∈ last.segments, GoodSegment hourRequest s := by
  obtain ⟨last, hlast, -, -, -, hgood⟩ := quoteCheckSegments_iff emptyTools (civil_civilLibrary []) hourRequest rfl
    (by decide) emptyResponse fun _ s _ => wellFormed_empty s
  exact ⟨last, hlast, hgood.mpr (by decide)⟩

/-- Half an hour, and half a second. -/
def shortRequest : BrokerQuoteCheckRequest := { symbol := "EURUSD", fromTimeMs := 1000, toTimeMs := 1801500 }

/-- The second segment begins at 1802 s, behind the end of the range. -/
theorem quoteCheckSegments_backwards :
    emptyTools.Civil ∧ (rejection shortRequest : Option (QuoteCheckApiResult Nat)) = none ∧
    (∀ s, WellFormed emptyTools s (emptyResponse s)) ∧
    ∃ s ∈ (run emptyTools shortRequest emptyResponse 1).segments, s.toTimeMs < s.fromTimeMs := by
  refine ⟨civil_civilLibrary [], rfl, wellFormed_empty, segmentAt emptyTools shortRequest 1802000, ?_, by decide⟩
  have hstart : start emptyTools shortRequest =
      ({} : QuoteCheckState Nat).runSegment emptyTools shortRequest 1000 := rfl
  have hend : (segmentAt emptyTools shortRequest 1000).toTimeMs = 1801000 := by decide
  have hrun : run emptyTools shortRequest emptyResponse 1 =
      (start emptyTools shortRequest).onResponse emptyTools shortRequest (segmentAt emptyTools shortRequest 1000)
        (emptyResponse (segmentAt emptyTools shortRequest 1000)) := rfl
  have hnext : (if (1801000 : UInt64) - 1801000 % 1000 > maxTimeMs - 1000 then maxTimeMs
      else 1801000 - 1801000 % 1000 + 1000) = 1802000 := by decide
  rw [hrun, onResponse_eq (wellFormed_empty _), hend, hnext]
  dsimp only
  rw [if_pos (by decide)]
  exact List.mem_append_right _ (List.mem_singleton_self _)

end QuoteCheckSegments

end OptionX.IntradeBar
