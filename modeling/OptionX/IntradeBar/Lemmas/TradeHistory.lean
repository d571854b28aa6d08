import OptionX.IntradeBar.TradeHistory

/-!
# The chain of history pages

An answer either completes the request or opens one for a new cursor, so that pages are counted by cursors. What the
chain collects is the list of first records of each id, of which the unread pages could add none within the range.
-/

namespace OptionX.IntradeBar

variable {F : Type} {request : TradeHistoryRequest} {record : HistoryRecord F} {before l l' : List (HistoryRecord F)}

/-! ## First records -/

/-- The records without an id, and the first one of each id, after those of `before`. -/
def firstRecords : List (HistoryRecord F) → List (HistoryRecord F) → List (HistoryRecord F)
  | _, [] => []
  | before, record :: l =>
    if 0 < record.optionId && before.any (·.optionId = record.optionId) then firstRecords (record :: before) l
    else record :: firstRecords (record :: before) l

theorem firstRecords_subset : ∀ r ∈ firstRecords before l, r ∈ l := by
  induction l generalizing before with
  | nil => simp [firstRecords]
  | cons record l ih =>
    intro r hr
    rw [firstRecords] at hr
    split at hr
    · exact List.mem_cons_of_mem _ (ih r hr)
    · rcases List.mem_cons.mp hr with rfl | hr
      · simp
      · exact List.mem_cons_of_mem _ (ih r hr)

/-- Only the ids before matter. -/
theorem firstRecords_congr {before' : List (HistoryRecord F)}
    (h : ∀ id : Int, 0 < id → (before.any (·.optionId = id)) = before'.any (·.optionId = id)) :
    firstRecords before l = firstRecords before' l := by
  induction l generalizing before before' with
  | nil => rfl
  | cons record l ih =>
    have hrest : firstRecords (record :: before) l = firstRecords (record :: before') l := by
      apply ih
      intro id hid
      simp only [List.any_cons, h id hid]
    have htest : (0 < record.optionId && before.any (·.optionId = record.optionId)) =
        (0 < record.optionId && before'.any (·.optionId = record.optionId)) := by
      by_cases hid : 0 < record.optionId
      · simp only [h _ hid]
      · simp [hid]
    rw [firstRecords, firstRecords, hrest, htest]

theorem firstRecords_append :
    firstRecords before (l ++ l') = firstRecords before l ++ firstRecords (l.reverse ++ before) l' := by
  induction l generalizing before with
  | nil => rfl
  | cons record l ih =>
    simp only [List.cons_append, firstRecords, ih, List.reverse_cons, List.append_assoc, List.nil_append]
    split <;> simp

/-- The target holds the ids that came before, so that the code keeps the first records. -/
theorem appendUnique_eq (target source : List (HistoryRecord F)) :
    appendUniqueTradeHistory target source = target ++ firstRecords target source := by
  induction source generalizing target with
  | nil => simp [appendUniqueTradeHistory, firstRecords]
  | cons record source ih =>
    simp only [appendUniqueTradeHistory, List.foldl_cons] at ih ⊢
    rw [ih, firstRecords]
    by_cases h : (0 < record.optionId && target.any (·.optionId = record.optionId)) = true
    · have hsame : firstRecords (record :: target) source = firstRecords target source := by
        apply firstRecords_congr
        intro id _
        simp only [Bool.and_eq_true] at h
        by_cases hid : record.optionId = id
        · subst hid
          simp [h.2]
        · simp [hid]
      rw [if_pos h, if_pos h, hsame]
    · have hsame : firstRecords (target ++ [record]) source = firstRecords (record :: target) source := by
        apply firstRecords_congr
        intro id _
        simp [Bool.or_comm]
      rw [if_neg h, if_neg h, hsame, List.append_assoc, List.singleton_append]

theorem appendUnique_append (target : List (HistoryRecord F)) :
    appendUniqueTradeHistory target (l ++ l') = appendUniqueTradeHistory (appendUniqueTradeHistory target l) l' := by
  simp only [appendUniqueTradeHistory, List.foldl_append]

/-! ## The range -/

/-- The range of the request: closed, half-open, or everything. -/
def inRange (request : TradeHistoryRequest) (record : HistoryRecord F) : Bool :=
  let timestamp := selectTradeHistoryTimestamp record request.timeField
  match request.rangeMode with
  | .none => true
  | .closed => request.startMs ≤ timestamp && timestamp ≤ request.stopMs
  | .halfOpen => request.startMs ≤ timestamp && timestamp < request.stopMs

theorem filterRange_eq (h : ∀ r ∈ l, 0 < selectTradeHistoryTimestamp r request.timeField) :
    filterTradeHistoryRange l request = l.filter (inRange request) := by
  have hmember : ∀ r ∈ l, request.rangeMode ≠ .none → (!outsideRange request r) = inRange request r := by
    intro r hr hmode
    have hpos := (h r hr).not_ge
    cases hrange : request.rangeMode with
    | none => exact absurd hrange hmode
    | closed => simp [outsideRange, inRange, hrange, hpos, Bool.not_or, ← decide_not]
    | halfOpen => simp [outsideRange, inRange, hrange, hpos, Bool.not_or, ← decide_not]
  unfold filterTradeHistoryRange
  split
  · rename_i hmode
    exact (List.filter_eq_self.mpr fun r _ => by simp [inRange, hmode]).symm
  · rename_i hmode
    exact List.filter_congr fun r hr => hmember r hr hmode

/-- Where a page reaches the start of the range, the records that follow in time lie outside. -/
theorem filter_unread (h : tradeHistoryPageReachedStart l request = true)
    (hlater : ∀ r ∈ l, ∀ r' ∈ l', selectTradeHistoryTimestamp r' request.timeField ≤
      selectTradeHistoryTimestamp r request.timeField) : l'.filter (inRange request) = [] := by
  unfold tradeHistoryPageReachedStart at h
  split at h
  · cases h
  · rename_i hmode
    simp only [List.any_eq_true, Bool.and_eq_true, decide_eq_true_eq] at h
    obtain ⟨r, hr, _, hstart⟩ := h
    refine List.filter_eq_nil_iff.mpr fun r' hr' => ?_
    have hlt := (hlater r hr r' hr').trans_lt hstart
    cases hrange : request.rangeMode with
    | none => exact absurd hrange hmode
    | closed => simp [inRange, hrange, hlt.not_ge]
    | halfOpen => simp [inRange, hrange, hlt.not_ge]

namespace HtmlHistory

variable {history : HtmlHistory F} {state : HtmlHistoryState F} {respond : PageRequest → PageResponse}
  {asked : PageRequest} {response : PageResponse} {page : TradeHistoryHtmlPage F} {n m : Nat}

/-! ## One answer -/

/-- The state with the pages that were collected, at the end. -/
def ended (state : HtmlHistoryState F) (records : List (HistoryRecord F)) (pageCount : Nat)
    (result : TradeHistoryApiResult F) : HtmlHistoryState F :=
  { state with records, pageCount, pending := none, completed := true, calls := state.calls ++ [result] }

/-- The state with one page more, and the request for the next one. -/
def continued (state : HtmlHistoryState F) (records : List (HistoryRecord F)) (last : Text) : HtmlHistoryState F :=
  { state with
    records
    pageCount := state.pageCount + 1
    requestedLastValues := state.requestedLastValues ++ [last]
    requests := state.requests ++ [.loadMore last]
    pending := some (.loadMore last) }

/-- Whether a page leads to another request. -/
def wantsMore (history : HtmlHistory F) (state : HtmlHistoryState F) (page : TradeHistoryHtmlPage F) : Prop :=
  page.records ≠ [] ∧ tradeHistoryPageReachedStart page.records history.request = false ∧ page.nextLast ≠ [] ∧
    page.nextLast ∉ state.requestedLastValues ∧ state.pageCount + 1 < maxHtmlHistoryPages

theorem processPage_continues (hopen : state.completed = false) (h : history.wantsMore state page) (status : Int) :
    history.processPage { state with pending := none } page status =
      (continued state (appendUniqueTradeHistory state.records page.records) page.nextLast, none) := by
  obtain ⟨hrecords, hstart, hlast, hnew, hcount⟩ := h
  have hrepeats : (state.requestedLastValues.any (· = page.nextLast)) = false := by
    simp only [List.any_eq_false, decide_eq_true_eq]
    exact fun last hmem heq => hnew (heq ▸ hmem)
  simp [processPage, loadMore, continued, hrecords, hstart, hlast, hrepeats, hcount, hopen]

theorem processPage_ends (hopen : state.completed = false) (h : ¬ history.wantsMore state page) (status : Int) :
    (history.processPage { state with pending := none } page status).1 =
      ended state (appendUniqueTradeHistory state.records page.records) (state.pageCount + 1)
        (.ok (applyTradeHistoryRequestMetadata (filterTradeHistoryRange
          (appendUniqueTradeHistory state.records page.records) history.request) history.request) status) := by
  have htest : (!page.records.isEmpty && !tradeHistoryPageReachedStart page.records history.request &&
      page.nextLast ≠ [] && !(page.nextLast ≠ [] && state.requestedLastValues.any (· = page.nextLast)) &&
      state.pageCount + 1 < maxHtmlHistoryPages) = false := by
    rw [Bool.eq_false_iff]
    intro htrue
    simp only [Bool.and_eq_true, Bool.not_eq_true', List.isEmpty_eq_false_iff, decide_eq_true_eq, Bool.and_eq_false_imp,
      List.any_eq_false] at htrue
    obtain ⟨⟨⟨⟨hrecords, hstart⟩, hlast⟩, hnew⟩, hcount⟩ := htrue
    exact h ⟨hrecords, hstart, hlast, fun hmem => hnew hlast _ hmem rfl, hcount⟩
  simp only [processPage, htest, Bool.false_eq_true, if_false]
  simp [complete, finalResult, ended, hopen]

/-- After the end, what is thrown changes nothing. -/
theorem complete_ended (records : List (HistoryRecord F)) (pageCount : Nat) (result result' : TradeHistoryApiResult F) :
    (history.complete (ended state records pageCount result) result').1 = ended state records pageCount result := rfl

theorem complete_open (hopen : state.completed = false) (result : TradeHistoryApiResult F) :
    (history.complete { state with pending := none } result).1 =
      ended state state.records state.pageCount (history.finalResult state result) := by
  simp [complete, ended, finalResult, hopen]

/-- What the server's page says, if it says something. -/
def pageAt (history : HtmlHistory F) (response : PageResponse) : Option (Int × TradeHistoryHtmlPage F) :=
  match response with
  | .invalid _ => none
  | .valid status content =>
    match parseTradeHistoryHtmlPage history.parsers content history.accountType with
    | .ok page => some (status, page)
    | .error _ => none

theorem onResponse_refused (asked : PageRequest) (hopen : state.completed = false) (h : history.pageAt response = none) :
    ∃ result, history.onResponse state asked response = ended state state.records state.pageCount result := by
  cases response with
  | invalid status => exact ⟨_, complete_open hopen _⟩
  | valid status content =>
    cases hparse : parseTradeHistoryHtmlPage history.parsers content history.accountType with
    | error what =>
      simp only [onResponse, hparse]
      exact ⟨_, complete_open hopen _⟩
    | ok page => simp [pageAt, hparse] at h

theorem onResponse_page {status : Int} (hopen : state.completed = false)
    (h : history.pageAt response = some (status, page)) :
    history.onResponse state asked response = (history.processPage { state with pending := none } page status).1 := by
  cases response with
  | invalid => cases h
  | valid status' content =>
    cases hparse : parseTradeHistoryHtmlPage history.parsers content history.accountType with
    | error what => simp [pageAt, hparse] at h
    | ok page' =>
      simp only [pageAt, hparse, Option.some.injEq, Prod.mk.injEq] at h
      obtain ⟨rfl, rfl⟩ := h
      simp only [onResponse, hparse]
      by_cases hmore : history.wantsMore state page'
      · rw [processPage_continues hopen hmore]
      · have hend := processPage_ends hopen hmore status'
        cases hthrown : history.processPage { state with pending := none } page' status' with
        | mk state' thrown =>
          rw [hthrown] at hend
          cases thrown with
          | none => rfl
          | some what =>
            simp only at hend
            subst hend
            exact complete_ended ..

/-- An answer ends the chain, or leads to a request for a cursor that was not asked for. -/
theorem onResponse_cases (history : HtmlHistory F) (asked : PageRequest) (response : PageResponse)
    (hopen : state.completed = false) :
    (∃ records pageCount result, history.onResponse state asked response = ended state records pageCount result) ∨
    ∃ records last, last ∉ state.requestedLastValues ∧ state.pageCount + 1 < maxHtmlHistoryPages ∧
      history.onResponse state asked response = continued state records last := by
  cases hpage : history.pageAt response with
  | none =>
    obtain ⟨result, hend⟩ := onResponse_refused asked hopen hpage
    exact Or.inl ⟨_, _, result, hend⟩
  | some answer =>
    rw [onResponse_page hopen hpage]
    by_cases hmore : history.wantsMore state answer.2
    · rw [processPage_continues hopen hmore]
      exact Or.inr ⟨_, _, hmore.2.2.2.1, hmore.2.2.2.2, rfl⟩
    · exact Or.inl ⟨_, _, _, processPage_ends hopen hmore _⟩

/-! ## Runs -/

/-- While a request is open, each page but the last has led to a cursor; at the end the callback was called. -/
structure Inv (state : HtmlHistoryState F) : Prop where
  requests : state.requests = .home :: state.requestedLastValues.map .loadMore
  distinct : state.requestedLastValues.Nodup
  bounded : state.requestedLastValues.length < maxHtmlHistoryPages
  running : state.pending.isSome → state.completed = false ∧ state.calls = [] ∧
    state.requestedLastValues.length = state.pageCount
  finished : state.pending = none → state.calls.length = 1

theorem Inv.start : Inv ({} : HtmlHistoryState F) where
  requests := rfl
  distinct := List.nodup_nil
  bounded := by simp [maxHtmlHistoryPages]
  running _ := ⟨rfl, rfl, rfl⟩
  finished h := by simp at h

theorem step_closed (h : state.pending = none) : history.step respond state = state := by simp [step, h]

theorem step_open (history : HtmlHistory F) (respond : PageRequest → PageResponse) (h : state.pending = some asked) :
    history.step respond state = history.onResponse state asked (respond asked) := by simp [step, h]

theorem Inv.step (hinv : Inv state) : Inv (history.step respond state) := by
  cases hpending : state.pending with
  | none => rwa [step_closed hpending]
  | some asked =>
    obtain ⟨hopen, hcalls, hcount⟩ := hinv.running (by simp [hpending])
    rw [step_open history respond hpending]
    obtain ⟨records, pageCount, result, hend⟩ | ⟨records, last, hnew, hlt, hmore⟩ :=
      onResponse_cases history asked (respond asked) hopen
    · rw [hend]
      exact ⟨hinv.requests, hinv.distinct, hinv.bounded, by simp [ended], by simp [ended, hcalls]⟩
    · rw [hmore]
      refine ⟨?_, ?_, ?_, ?_, ?_⟩
      · simp [continued, hinv.requests]
      · exact List.nodup_append.mpr ⟨hinv.distinct, List.nodup_singleton _, by
          rintro a ha b hb rfl
          exact hnew (List.mem_singleton.mp hb ▸ ha)⟩
      · simp only [continued, List.length_append, List.length_singleton, hcount]
        exact hlt
      · simp [continued, hopen, hcalls, hcount]
      · simp [continued]

theorem inv_run (history : HtmlHistory F) (respond : PageRequest → PageResponse) (n : Nat) :
    Inv (history.run respond n) := by
  induction n with
  | zero => exact Inv.start
  | succ n ih =>
    rw [run, Function.iterate_succ_apply']
    exact ih.step

/-- As long as a request is open, every answer was a page. -/
theorem pageCount_run (h : (history.run respond n).pending.isSome) : (history.run respond n).pageCount = n := by
  induction n with
  | zero => rfl
  | succ n ih =>
    rw [run, Function.iterate_succ_apply'] at h ⊢
    cases hpending : (history.run respond n).pending with
    | none =>
      have hclosed : history.step respond (history.run respond n) = history.run respond n := step_closed hpending
      rw [run] at hclosed
      rw [hclosed, ← run, hpending] at h
      cases h
    | some asked =>
      have hopen := ((inv_run history respond n).running (by simp [hpending])).1
      have hstep := step_open history respond hpending
      rw [run] at hstep
      rw [hstep] at h ⊢
      obtain ⟨records, pageCount, result, hend⟩ | ⟨records, last, _, _, hmore⟩ :=
        onResponse_cases history asked (respond asked) hopen
      · rw [← run, hend] at h
        cases h
      · rw [← run, hmore]
        simp [continued, ih (by simp [hpending])]

/-- After two hundred answers no request is open. -/
theorem run_pending (h : maxHtmlHistoryPages ≤ n) : (history.run respond n).pending = none := by
  by_contra hpending
  have hopen := Option.ne_none_iff_isSome.mp hpending
  have hinv := inv_run history respond n
  have := hinv.bounded
  rw [(hinv.running hopen).2.2, pageCount_run hopen] at this
  omega

theorem run_stable (h : (history.run respond n).pending = none) (hle : n ≤ m) :
    history.run respond m = history.run respond n := by
  induction m, hle using Nat.le_induction with
  | base => rfl
  | succ m _ ih =>
    rw [run, Function.iterate_succ_apply', ← run, ih]
    exact step_closed h

/-! ## Chains -/

/-- Asked in this way, the server gives these pages one after another, and the last one has no cursor. -/
def IsChain (history : HtmlHistory F) (respond : PageRequest → PageResponse) :
    PageRequest → List (TradeHistoryHtmlPage F) → Prop
  | _, [] => False
  | asked, [page] => (∃ status, history.pageAt (respond asked) = some (status, page)) ∧ page.nextLast = []
  | asked, page :: next :: pages =>
    (∃ status, history.pageAt (respond asked) = some (status, page)) ∧ page.nextLast ≠ [] ∧
      IsChain history respond (.loadMore page.nextLast) (next :: pages)

/-- The records whose times do not increase. -/
def TimeOrdered (request : TradeHistoryRequest) (records : List (HistoryRecord F)) : Prop :=
  records.Pairwise fun r r' =>
    selectTradeHistoryTimestamp r' request.timeField ≤ selectTradeHistoryTimestamp r request.timeField

/-- The result from the records that were read. -/
def resultOf (history : HtmlHistory F) (records : List (HistoryRecord F)) (status : Int) : TradeHistoryApiResult F :=
  .ok (applyTradeHistoryRequestMetadata (filterTradeHistoryRange records history.request) history.request) status

theorem TimeOrdered.later {records records' : List (HistoryRecord F)} (h : TimeOrdered request (records ++ records')) :
    ∀ r ∈ records, ∀ r' ∈ records', selectTradeHistoryTimestamp r' request.timeField ≤
      selectTradeHistoryTimestamp r request.timeField :=
  (List.pairwise_append.mp h).2.2

/-- Along a chain, the request ends with the records it has read, and what it has not read is outside the range. -/
theorem chain_ends {pages : List (TradeHistoryHtmlPage F)} (hpending : state.pending = some asked)
    (hopen : state.completed = false) (hcalls : state.calls = []) (hchain : history.IsChain respond asked pages)
    (hrecords : ∀ page ∈ pages, page.records ≠ []) (hnew : ∀ page ∈ pages, page.nextLast ∉ state.requestedLastValues)
    (hdistinct : (pages.map (·.nextLast)).Nodup) (hcount : state.pageCount + pages.length < maxHtmlHistoryPages)
    (htimes : TimeOrdered history.request (pages.flatMap (·.records))) :
    ∃ k status read unread, pages.flatMap (·.records) = read ++ unread ∧
      unread.filter (inRange history.request) = [] ∧
      ((history.step respond)^[k] state).pending = none ∧
      ((history.step respond)^[k] state).calls =
        [history.resultOf (appendUniqueTradeHistory state.records read) status] := by
  induction pages generalizing state asked with
  | nil => cases hchain
  | cons page pages ih =>
    have hanswer : ∃ status, history.pageAt (respond asked) = some (status, page) := by
      cases pages <;> exact hchain.1
    obtain ⟨status, hanswer⟩ := hanswer
    have hstep : history.step respond state = (history.processPage { state with pending := none } page status).1 := by
      rw [step_open history respond hpending, onResponse_page hopen hanswer]
    by_cases hmore : history.wantsMore state page
    · obtain ⟨next, pages, rfl⟩ : ∃ next rest, pages = next :: rest := by
        cases pages with
        | nil => exact absurd hchain.2 hmore.2.2.1
        | cons next rest => exact ⟨next, rest, rfl⟩
      rw [processPage_continues hopen hmore] at hstep
      obtain ⟨hfirst, hdistinct'⟩ := List.nodup_cons.mp hdistinct
      obtain ⟨k, status', read, unread, hsplit, hunread, hclosed, hresult⟩ :=
        ih (show (continued state (appendUniqueTradeHistory state.records page.records) page.nextLast).pending =
            some (.loadMore page.nextLast) from rfl) hopen hcalls hchain.2.2 (fun page' hpage' => hrecords page' (by simp [hpage']))
          (by
            intro page' hpage'
            simp only [continued, List.mem_append, List.mem_singleton, not_or]
            exact ⟨hnew page' (by simp [hpage']), fun heq => hfirst (List.mem_map.mpr ⟨page', hpage', heq⟩)⟩)
          hdistinct' (by simp only [continued, List.length_cons] at hcount ⊢; omega)
          (List.pairwise_append.mp htimes).2.1
      refine ⟨k + 1, status', page.records ++ read, unread, ?_, hunread, ?_, ?_⟩
      · rw [List.flatMap_cons, hsplit, List.append_assoc]
      · rw [Function.iterate_succ_apply, hstep]
        exact hclosed
      · rw [Function.iterate_succ_apply, hstep, appendUnique_append]
        exact hresult
    · rw [processPage_ends hopen hmore] at hstep
      refine ⟨1, status, page.records, pages.flatMap (·.records), rfl, ?_, ?_, ?_⟩
      · cases pages with
        | nil => rfl
        | cons next pages =>
          have hstart : tradeHistoryPageReachedStart page.records history.request = true := by
            rw [← Bool.not_eq_false]
            intro hstart
            refine hmore ⟨hrecords page (by simp), hstart, hchain.2.1, hnew page (by simp), ?_⟩
            simp only [List.length_cons] at hcount
            omega
          exact filter_unread hstart (TimeOrdered.later htimes)
      · rw [Function.iterate_one, hstep]
        rfl
      · rw [Function.iterate_one, hstep]
        simp only [ended, hcalls, List.nil_append, resultOf]

/-- What the request gives for the records it has read is what the whole chain has in the range. -/
theorem resultOf_read {read unread : List (HistoryRecord F)} (status : Int)
    (hpos : ∀ r ∈ read ++ unread, 0 < selectTradeHistoryTimestamp r history.request.timeField)
    (hunread : unread.filter (inRange history.request) = []) :
    history.resultOf (appendUniqueTradeHistory [] read) status =
      .ok (applyTradeHistoryRequestMetadata ((firstRecords [] (read ++ unread)).filter (inRange history.request))
        history.request) status := by
  have hfirst : appendUniqueTradeHistory [] read = firstRecords [] read := by simp [appendUnique_eq]
  have hrest : (firstRecords (read.reverse ++ []) unread).filter (inRange history.request) = [] := by
    refine List.filter_eq_nil_iff.mpr fun r hr => ?_
    exact List.filter_eq_nil_iff.mp hunread r (firstRecords_subset r hr)
  rw [resultOf, hfirst, filterRange_eq fun r hr => hpos r (by simp [firstRecords_subset r hr]), firstRecords_append,
    List.filter_append, hrest, List.append_nil]

/-- The result of a chain of fewer than two hundred pages. -/
theorem run_chain {pages : List (TradeHistoryHtmlPage F)} (hchain : history.IsChain respond .home pages)
    (hlength : pages.length < maxHtmlHistoryPages) (hrecords : ∀ page ∈ pages, page.records ≠ [])
    (hdistinct : (pages.map (·.nextLast)).Nodup)
    (hpos : ∀ r ∈ pages.flatMap (·.records), 0 < selectTradeHistoryTimestamp r history.request.timeField)
    (htimes : TimeOrdered history.request (pages.flatMap (·.records))) :
    ∃ status, ∀ n, maxHtmlHistoryPages ≤ n → (history.run respond n).calls =
      [.ok (applyTradeHistoryRequestMetadata
        ((firstRecords [] (pages.flatMap (·.records))).filter (inRange history.request)) history.request) status] := by
  obtain ⟨k, status, read, unread, hsplit, hunread, hclosed, hresult⟩ :=
    chain_ends (show ({} : HtmlHistoryState F).pending = some .home from rfl) rfl rfl hchain hrecords (by simp) hdistinct (by simpa using hlength) htimes
  refine ⟨status, fun n hn => ?_⟩
  have hsame : history.run respond n = history.run respond k := by
    rcases le_total k n with hle | hle
    · exact run_stable hclosed hle
    · exact (run_stable (run_pending hn) hle).symm
  rw [hsame, run, hresult, hsplit, resultOf_read status (hsplit ▸ hpos) hunread]

end HtmlHistory

end OptionX.IntradeBar
