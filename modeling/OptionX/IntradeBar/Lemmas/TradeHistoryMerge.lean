import OptionX.IntradeBar.TradeHistoryMerge
import OptionX.Lib.GreedyMatching

/-!
# Merging as greedy matching

The loop with its flags takes rows greedily. Where the merged records are the same in every order, all rows that match one
record fill it in alike: otherwise there were more records that cannot lose their rows than rows.
-/

namespace OptionX.IntradeBar

open Lib.GreedyMatching

variable {F : Type} {tests : PriceTests F} {c c' h h' : BrokerTradeRecord F} {csv html csv₁ html₁ : List (BrokerTradeRecord F)}

/-! ## The loop -/

/-- The HTML records that are not used. -/
def freeRows (html : List (BrokerTradeRecord F)) (htmlUsed : List Bool) : List (BrokerTradeRecord F) :=
  ((html.zip htmlUsed).filter fun row => !row.2).map Prod.fst

theorem freeRows_replicate (html : List (BrokerTradeRecord F)) :
    freeRows html (List.replicate html.length false) = html := by
  induction html with
  | nil => rfl
  | cons h html ih =>
    simp only [freeRows, List.length_cons, List.replicate_succ, List.zip_cons_cons] at ih ⊢
    simp [ih]

theorem takeFirst_freeRows (tests : PriceTests F) (c : BrokerTradeRecord F) (html : List (BrokerTradeRecord F))
    (htmlUsed : List Bool) :
    takeFirst (recordsMatch tests c) (freeRows html htmlUsed) =
      (findHtmlRecord tests c html htmlUsed).map fun (found, htmlUsed) => (found, freeRows html htmlUsed) := by
  induction html generalizing htmlUsed with
  | nil => rfl
  | cons h html ih =>
    cases htmlUsed with
    | nil => rfl
    | cons used htmlUsed =>
      have ih := ih htmlUsed
      cases used with
      | true =>
        have hfree : ∀ htmlUsed, freeRows (h :: html) (true :: htmlUsed) = freeRows html htmlUsed := fun _ => rfl
        rw [hfree, ih]
        simp [findHtmlRecord, hfree, Function.comp_def]
      | false =>
        have hfree : ∀ htmlUsed, freeRows (h :: html) (false :: htmlUsed) = h :: freeRows html htmlUsed := fun _ => rfl
        cases hmatch : recordsMatch tests c h with
        | true => simp [takeFirst, findHtmlRecord, hmatch, freeRows]
        | false => simp [hfree, takeFirst, findHtmlRecord, hmatch, ih, Function.comp_def]

theorem mergeLoop_eq (tests : PriceTests F) (html csv : List (BrokerTradeRecord F)) (htmlUsed : List Bool) :
    mergeLoop tests html csv htmlUsed =
      (pairs (recordsMatch tests) csv (freeRows html htmlUsed)).map fun q => enrichRecord tests q.1 q.2 := by
  induction csv generalizing htmlUsed with
  | nil => rfl
  | cons c csv ih =>
    have htaken := takeFirst_freeRows tests c html htmlUsed
    rw [mergeLoop]
    cases hfound : findHtmlRecord tests c html htmlUsed with
    | some found =>
      rw [hfound] at htaken
      rw [pairs_taken htaken]
      simp [ih]
    | none =>
      rw [hfound] at htaken
      rw [pairs_skipped htaken]
      exact ih htmlUsed

/-- The records that are merged, each with the row that was found for it. -/
def mergedPairs (tests : PriceTests F) (csv html : List (BrokerTradeRecord F)) :
    List (BrokerTradeRecord F × BrokerTradeRecord F) :=
  pairs (recordsMatch tests) csv html

theorem mergeTradeHistoryCsvWithHtml_eq (tests : PriceTests F) (csv html : List (BrokerTradeRecord F)) :
    mergeTradeHistoryCsvWithHtml tests csv html =
      (mergedPairs tests csv html).map fun q => enrichRecord tests q.1 q.2 := by
  rw [mergeTradeHistoryCsvWithHtml, mergeLoop_eq, freeRows_replicate]
  rfl

/-! ## Fields -/

/-- A record has all that was set in another, and nothing else than what can be filled in differs. -/
structure KeepsSet (tests : PriceTests F) (c r : BrokerTradeRecord F) : Prop where
  optionId : c.optionId ≠ 0 → r.optionId = c.optionId
  symbol : c.symbol ≠ "" → r.symbol = c.symbol
  openPrice : tests.isZero c.openPrice = false → r.openPrice = c.openPrice
  closePrice : tests.isZero c.closePrice = false → r.closePrice = c.closePrice
  openDate : c.openDate ≠ 0 → r.openDate = c.openDate
  closeDate : c.closeDate ≠ 0 → r.closeDate = c.closeDate
  duration : c.duration ≠ 0 → r.duration = c.duration
  optionType : c.optionType ≠ .unknown → r.optionType = c.optionType
  orderType : c.orderType ≠ .unknown → r.orderType = c.orderType
  others : { r with
    optionId := c.optionId, symbol := c.symbol, openPrice := c.openPrice, closePrice := c.closePrice
    openDate := c.openDate, closeDate := c.closeDate, duration := c.duration, optionType := c.optionType
    orderType := c.orderType } = c

theorem keepsSet_enrichRecord (tests : PriceTests F) (c h : BrokerTradeRecord F) :
    KeepsSet tests c (enrichRecord tests c h) where
  optionId hset := if_neg hset
  symbol hset := if_neg hset
  openPrice hset := by simp [enrichRecord, hset]
  closePrice hset := by simp [enrichRecord, hset]
  openDate hset := if_neg hset
  closeDate hset := if_neg hset
  duration hset := if_neg hset
  optionType hset := if_neg hset
  orderType hset := if_neg hset
  others := rfl

/-! ## Matches -/

/-- A comparison of prices as of numbers. -/
structure PriceTests.Lawful (tests : PriceTests F) : Prop where
  notZero : ∀ p, tests.isPositive p = true → tests.isZero p = false
  notApart : ∀ p, tests.isApart p p = false

/-- No two records have the same id. -/
def DistinctIds (records : List (BrokerTradeRecord F)) : Prop :=
  records.Pairwise fun r r' => r.optionId ≠ 0 → r.optionId ≠ r'.optionId

/-- A row approximately matches at most one record without id. -/
def MatchesOneWithoutId (tests : PriceTests F) (csv html : List (BrokerTradeRecord F)) : Prop :=
  ∀ h ∈ html, csv.countP (fun c => c.optionId = 0 && approximatelyMatches tests c h) ≤ 1

theorem recordsMatch_withoutId (hc : c.optionId = 0) : recordsMatch tests c h = approximatelyMatches tests c h := by
  rw [recordsMatch, if_neg (by omega)]

theorem DistinctIds.perm {records records' : List (BrokerTradeRecord F)} (hperm : records.Perm records')
    (hdistinct : DistinctIds records) : DistinctIds records' := by
  refine (hperm.pairwise_iff fun {r r'} hne hset heq => ?_).mp hdistinct
  rw [heq] at hset
  exact hne hset heq.symm

theorem eq_of_distinct {α : Type} {id : α → Int} {l : List α}
    (hdistinct : l.Pairwise fun x y => id x ≠ 0 → id x ≠ id y) {x y : α} (hx : x ∈ l) (hy : y ∈ l) (hset : id x ≠ 0)
    (heq : id x = id y) : x = y := by
  induction hdistinct with
  | nil => simp at hx
  | @cons first l hfirst _ ih =>
    rcases List.mem_cons.mp hx with rfl | hlater <;> rcases List.mem_cons.mp hy with rfl | hlater'
    · rfl
    · exact absurd heq (hfirst y hlater' hset)
    · exact absurd heq.symm (hfirst x hlater (heq ▸ hset))
    · exact ih hlater hlater'

/-- A record with an id does not occur twice. -/
theorem DistinctIds.ne_of_perm {records records' : List (BrokerTradeRecord F)} {r r' : BrokerTradeRecord F}
    (hdistinct : DistinctIds records) (hperm : records.Perm (r :: records')) (hr' : r' ∈ records')
    (hset : r.optionId ≠ 0) : r.optionId ≠ r'.optionId :=
  (List.pairwise_cons.mp (hdistinct.perm hperm)).1 r' hr' hset

/-- What an approximate match says. -/
theorem approximatelyMatches_iff : approximatelyMatches tests c h = true ↔
    (c.symbol ≠ "" ∧ h.symbol = c.symbol ∧ 0 < c.openDate ∧ 0 < h.openDate ∧
      |c.openDate - h.openDate| ≤ timeToleranceMs) ∧
    ¬ (tests.isPositive c.openPrice = true ∧ tests.isPositive h.openPrice = true ∧
      tests.isApart c.openPrice h.openPrice = true) := by
  unfold approximatelyMatches
  split
  · rename_i hno
    simp only [Bool.false_eq_true, false_iff, not_and]
    rintro ⟨hsymbol, hsame, hdate, hdate', htime⟩
    rcases hno with hno | hno | hno | hno | hno | hno
    · exact absurd hno hsymbol
    · exact absurd (hsame ▸ hno) hsymbol
    · exact absurd hsame.symm hno
    · omega
    · omega
    · exact absurd hno (not_lt.mpr htime)
  · rename_i hyes
    simp only [not_or, not_lt, not_le, gt_iff_lt, ne_eq, not_not] at hyes
    obtain ⟨hsymbol, -, hsame, hdate, hdate', htime⟩ := hyes
    rw [Bool.not_eq_true', Bool.and_eq_false_iff, Bool.and_eq_false_iff]
    simp only [← hsame, hsymbol, hdate, hdate', htime, not_false_eq_true, ne_eq, true_and, not_and, Bool.not_eq_true]
    cases tests.isPositive c.openPrice <;> cases tests.isPositive h.openPrice <;> simp

/-- Where two records are filled in alike, one matches the rows of the other. -/
theorem approximatelyMatches_alike (hlawful : tests.Lawful) (hmatch : approximatelyMatches tests c h = true)
    (hmatch' : approximatelyMatches tests c' h' = true) (halike : enrichRecord tests c h = enrichRecord tests c' h') :
    approximatelyMatches tests c h' = true := by
  rw [approximatelyMatches_iff] at hmatch hmatch' ⊢
  obtain ⟨⟨hsymbol, -, hdate, -, -⟩, -⟩ := hmatch
  obtain ⟨⟨hsymbol', hsame', hdate', hopen', htime'⟩, hprices'⟩ := hmatch'
  have hsymbols : c.symbol = c'.symbol := by
    have := congrArg (·.symbol) halike
    simpa [enrichRecord, hsymbol, hsymbol'] using this
  have hdates : c.openDate = c'.openDate := by
    have := congrArg (·.openDate) halike
    simpa [enrichRecord, hdate.ne', hdate'.ne'] using this
  refine ⟨⟨hsymbol, hsame'.trans hsymbols.symm, hdate, hopen', hdates ▸ htime'⟩, ?_⟩
  rintro ⟨hpositive, hpositive', hapart⟩
  have hprices : c.openPrice = if tests.isZero c'.openPrice then h'.openPrice else c'.openPrice := by
    have := congrArg (·.openPrice) halike
    simpa [enrichRecord, hlawful.notZero _ hpositive] using this
  split at hprices
  · rw [hprices, hlawful.notApart] at hapart
    cases hapart
  · exact hprices' ⟨hprices ▸ hpositive, hpositive', hprices ▸ hapart⟩

/-! ## Rows of one record -/

theorem enrichRecord_optionId (tests : PriceTests F) (c h : BrokerTradeRecord F) :
    (enrichRecord tests c h).optionId = if c.optionId = 0 then h.optionId else c.optionId := rfl

/-- There are no two records without id that approximately match one row. -/
theorem MatchesOneWithoutId.not_both (hone : MatchesOneWithoutId tests csv html) (hh : h ∈ html)
    (hperm : csv.Perm (c :: csv₁)) (hc' : c' ∈ csv₁) (hid : c.optionId = 0) (hid' : c'.optionId = 0)
    (hmatch : approximatelyMatches tests c h = true) (hmatch' : approximatelyMatches tests c' h = true) : False := by
  have hcount := hone h hh
  have hother : 0 < csv₁.countP fun c => c.optionId = 0 && approximatelyMatches tests c h :=
    List.countP_pos_iff.mpr ⟨c', hc', by simp [hid', hmatch']⟩
  rw [hperm.countP_eq, List.countP_cons_of_pos (by simp [hid, hmatch])] at hcount
  omega

/-- What is made of a match of a record with an id behind the record is made of the row of this id, by one without id. -/
theorem row_of_alike (hcsv : DistinctIds csv) (hperm : csv.Perm (c :: csv₁)) (hid : c.optionId ≠ 0)
    {q : BrokerTradeRecord F × BrokerTradeRecord F} (hq : q.1 ∈ csv₁)
    (halike : enrichRecord tests q.1 q.2 = enrichRecord tests c h) : q.1.optionId = 0 ∧ q.2.optionId = c.optionId := by
  have hids := congrArg (·.optionId) halike
  simp only [enrichRecord_optionId, if_neg hid] at hids
  split at hids
  · rename_i hwithout
    exact ⟨hwithout, hids⟩
  · exact absurd hids.symm (hcsv.ne_of_perm hperm hq hid)

/-- A record with an id is filled in alike by its rows: what else there were to make of it would have to be made of the row
of its id, once and for all. -/
theorem alike_of_withId (hcsv : DistinctIds csv) (hhtml : DistinctIds html) (hone : MatchesOneWithoutId tests csv html)
    (hfree : OrderFree (recordsMatch tests) (enrichRecord tests) csv html) (hc : c ∈ csv) (hid : c.optionId ≠ 0)
    (hh : h ∈ html) (hh' : h' ∈ html) (hmatch : recordsMatch tests c h = true)
    (hmatch' : recordsMatch tests c h' = true) : enrichRecord tests c h = enrichRecord tests c h' := by
  by_contra hne
  obtain ⟨csv₁, hperm⟩ := exists_perm_cons hc
  obtain ⟨html₁, hperm₁⟩ := exists_perm_cons hh
  obtain ⟨html₂, hperm₂⟩ := exists_perm_cons hh'
  obtain ⟨q, hq, hmade⟩ := hfree.made_behind hperm hperm₁ hmatch hc hh' hmatch' hne
  obtain ⟨q', hq', hmade'⟩ := hfree.made_behind hperm hperm₂ hmatch' hc hh hmatch (Ne.symm hne)
  obtain ⟨hleft, hright, hpair⟩ := mem_of_mem_pairs hq
  obtain ⟨hleft', hright', hpair'⟩ := mem_of_mem_pairs hq'
  obtain ⟨hwithout, hrow⟩ := row_of_alike hcsv hperm hid hleft hmade
  obtain ⟨hwithout', hrow'⟩ := row_of_alike hcsv hperm hid hleft' hmade'
  have hmem : q.2 ∈ html := hperm₁.mem_iff.mpr (List.mem_cons_of_mem _ hright)
  have hmem' : q'.2 ∈ html := hperm₂.mem_iff.mpr (List.mem_cons_of_mem _ hright')
  have hrows : q.2 = q'.2 := eq_of_distinct hhtml hmem hmem' (hrow ▸ hid) (hrow.trans hrow'.symm)
  rw [recordsMatch_withoutId hwithout] at hpair
  rw [recordsMatch_withoutId hwithout', ← hrows] at hpair'
  have hrecords : q.1 = q'.1 := by
    obtain ⟨csv₂, hperm₃⟩ := exists_perm_cons (hperm.mem_iff.mpr (List.mem_cons_of_mem _ hleft))
    rcases List.mem_cons.mp (hperm₃.mem_iff.mp (hperm.mem_iff.mpr (List.mem_cons_of_mem _ hleft'))) with heq | hother
    · exact heq.symm
    · exact (hone.not_both hmem hperm₃ hother hwithout hwithout' hpair hpair').elim
  rw [hrecords, hrows] at hmade
  exact hne (hmade'.symm.trans hmade)

/-- A record without id that its rows fill in differently: each of them has an id, and the record of this id can be filled
in like the one without. -/
theorem exists_withId (hlawful : tests.Lawful) (hone : MatchesOneWithoutId tests csv html)
    (hfree : OrderFree (recordsMatch tests) (enrichRecord tests) csv html) (hc : c ∈ csv) (hid : c.optionId = 0)
    (hh : h ∈ html) (hh' : h' ∈ html) (hmatch : recordsMatch tests c h = true)
    (hmatch' : recordsMatch tests c h' = true) (hne : enrichRecord tests c h ≠ enrichRecord tests c h') :
    ∃ c' ∈ csv, ∃ k ∈ html, c'.optionId ≠ 0 ∧ c'.optionId = h'.optionId ∧ recordsMatch tests c' k = true ∧
      enrichRecord tests c' k = enrichRecord tests c h' := by
  obtain ⟨csv₁, hperm⟩ := exists_perm_cons hc
  obtain ⟨html₁, hperm₁⟩ := exists_perm_cons hh
  obtain ⟨q, hq, hmade⟩ := hfree.made_behind hperm hperm₁ hmatch hc hh' hmatch' hne
  obtain ⟨hleft, hright, hpair⟩ := mem_of_mem_pairs hq
  rw [recordsMatch_withoutId hid] at hmatch'
  have hset : q.1.optionId ≠ 0 := by
    intro hwithout
    rw [recordsMatch_withoutId hwithout] at hpair
    exact hone.not_both hh' hperm hleft hid hwithout hmatch' (approximatelyMatches_alike hlawful hpair hmatch' hmade)
  have hids := congrArg (·.optionId) hmade
  simp only [enrichRecord_optionId, if_neg hset, if_pos hid] at hids
  exact ⟨q.1, hperm.mem_iff.mpr (List.mem_cons_of_mem _ hleft), q.2, hperm₁.mem_iff.mpr (List.mem_cons_of_mem _ hright),
    hset, hids, hpair, hmade⟩

/-- Every record with an id that occurs among the rows is merged in every order. -/
def KeepsIdentified (tests : PriceTests F) (csv html : List (BrokerTradeRecord F)) : Prop :=
  ∀ c ∈ csv, c.optionId ≠ 0 → (∃ h ∈ html, h.optionId = c.optionId) →
    ∀ csv' html' : List (BrokerTradeRecord F), csv'.Perm csv → html'.Perm html →
      ∃ q ∈ mergedPairs tests csv' html', q.1 = c

theorem keepsIdentified_iff (tests : PriceTests F) (csv html : List (BrokerTradeRecord F)) :
    KeepsIdentified tests csv html ↔ ∀ c ∈ csv, c.optionId ≠ 0 → (∃ h ∈ html, h.optionId = c.optionId) →
      ¬ Lost (recordsMatch tests) csv html (· = c) :=
  forall₄_congr fun c _ _ _ =>
    (meets_all_orders_iff : _ ↔ ¬ Lost (recordsMatch tests) csv html fun c' => c' = c)

/-- The records are the same in every order when what is made of the pairs is. -/
theorem orderFree_iff_records (tests : PriceTests F) (csv html : List (BrokerTradeRecord F)) :
    (∀ csv' html' : List (BrokerTradeRecord F), csv'.Perm csv → html'.Perm html →
      ∀ r, r ∈ mergeTradeHistoryCsvWithHtml tests csv' html' ↔ r ∈ mergeTradeHistoryCsvWithHtml tests csv html) ↔
    OrderFree (recordsMatch tests) (enrichRecord tests) csv html := by
  simp only [mergeTradeHistoryCsvWithHtml_eq, List.mem_map]
  rfl

/-- When a record without id goes first to one of its rows, the record of the id of any row goes to another row of it. -/
theorem exists_other_row (hlawful : tests.Lawful) (hcsv : DistinctIds csv) (hhtml : DistinctIds html)
    (hone : MatchesOneWithoutId tests csv html)
    (hfree : OrderFree (recordsMatch tests) (enrichRecord tests) csv html) (hkept : KeepsIdentified tests csv html)
    (hperm : csv.Perm (c :: csv₁)) (hperm₁ : html.Perm (h :: html₁)) (hid : c.optionId = 0)
    (hmatch : recordsMatch tests c h = true) {k k' : BrokerTradeRecord F} (hk : k ∈ html)
    (hmatch' : recordsMatch tests c k = true) (hc' : c' ∈ csv) (hk' : k' ∈ html) (hset : c'.optionId ≠ 0)
    (hids : c'.optionId = k.optionId) (hpair : recordsMatch tests c' k' = true)
    (halike : enrichRecord tests c' k' = enrichRecord tests c k) :
    ∃ q ∈ pairs (recordsMatch tests) csv₁ html₁, q.1.optionId = k.optionId ∧ recordsMatch tests c q.2 = true := by
  obtain ⟨horder, horder', hpairs⟩ := exists_order_of_match hperm hperm₁ hmatch
  obtain ⟨q, hq, rfl⟩ := hkept c' hc' hset ⟨k, hk, hids.symm⟩ _ _ horder horder'
  rw [mergedPairs, hpairs, List.mem_cons] at hq
  have hbehind : q ∈ pairs (recordsMatch tests) csv₁ html₁ := by
    rcases hq with rfl | hq
    · exact absurd hid hset
    · exact hq
  obtain ⟨-, hright, hrow⟩ := mem_of_mem_pairs hbehind
  have hmem : q.2 ∈ html := hperm₁.mem_iff.mpr (List.mem_cons_of_mem _ hright)
  refine ⟨q, hbehind, hids, ?_⟩
  by_cases hboth : q.1.optionId > 0 ∧ q.2.optionId > 0
  · have hsame : q.1.optionId = q.2.optionId := by
      rw [recordsMatch, if_pos hboth] at hrow
      simpa using hrow
    rwa [← eq_of_distinct hhtml hk hmem (hids ▸ hset) (hids.symm.trans hsame)]
  · have hfilled : enrichRecord tests q.1 q.2 = enrichRecord tests c k :=
      (alike_of_withId hcsv hhtml hone hfree hc' hset hmem hk' hrow hpair).trans halike
    rw [recordsMatch, if_neg hboth] at hrow
    rw [recordsMatch_withoutId hid] at hmatch' ⊢
    exact approximatelyMatches_alike hlawful hmatch' hrow hfilled.symm

theorem pairs_snd_distinct (hhtml : DistinctIds html) :
    (pairs (recordsMatch tests) csv html).Pairwise fun q q' =>
      q.2.optionId ≠ 0 → q.2.optionId ≠ q'.2.optionId := by
  obtain ⟨rows, hperm, hsub⟩ := pairs_snd_subperm (recordsMatch tests) csv html
  exact List.pairwise_map.mp (DistinctIds.perm hperm (List.Pairwise.sublist hsub hhtml))

/-- A record without id is filled in alike by its rows: as many records with an id could not all go to the rows that are
left when it takes one. -/
theorem alike_of_withoutId (hlawful : tests.Lawful) (hcsv : DistinctIds csv) (hhtml : DistinctIds html)
    (hone : MatchesOneWithoutId tests csv html)
    (hfree : OrderFree (recordsMatch tests) (enrichRecord tests) csv html) (hkept : KeepsIdentified tests csv html)
    (hc : c ∈ csv) (hid : c.optionId = 0) (hh : h ∈ html) (hh' : h' ∈ html) (hmatch : recordsMatch tests c h = true)
    (hmatch' : recordsMatch tests c h' = true) : enrichRecord tests c h = enrichRecord tests c h' := by
  by_contra hne
  have howner : ∀ k ∈ html, recordsMatch tests c k = true → ∃ c' ∈ csv, ∃ k' ∈ html, c'.optionId ≠ 0 ∧
      c'.optionId = k.optionId ∧ recordsMatch tests c' k' = true ∧
      enrichRecord tests c' k' = enrichRecord tests c k := by
    intro k hk hmatchk
    by_cases heq : enrichRecord tests c h = enrichRecord tests c k
    · exact exists_withId hlawful hone hfree hc hid hh' hk hmatch' hmatchk fun heq' => hne (heq.trans heq'.symm)
    · exact exists_withId hlawful hone hfree hc hid hh hk hmatch hmatchk heq
  obtain ⟨csv₁, hperm⟩ := exists_perm_cons hc
  obtain ⟨html₁, hperm₁⟩ := exists_perm_cons hh
  let ids := ((html.filter (recordsMatch tests c)).map (·.optionId)).toFinset
  have hmem : ∀ n, n ∈ ids ↔ ∃ k ∈ html, recordsMatch tests c k = true ∧ k.optionId = n := by
    intro n
    simp [ids, and_assoc]
  have hset : ∀ n ∈ ids, n ≠ 0 := by
    intro n hn
    obtain ⟨k, hk, hmatchk, rfl⟩ := (hmem n).mp hn
    obtain ⟨c', -, -, -, hset, hids, -⟩ := howner k hk hmatchk
    exact hids ▸ hset
  have hfirst : h.optionId ∈ ids := (hmem _).mpr ⟨h, hh, hmatch, rfl⟩
  have hother : ∀ n ∈ ids, ∃ q ∈ pairs (recordsMatch tests) csv₁ html₁, q.1.optionId = n ∧
      q.2.optionId ∈ ids.erase h.optionId := by
    intro n hn
    obtain ⟨k, hk, hmatchk, rfl⟩ := (hmem n).mp hn
    obtain ⟨c', hc', k', hk', hset', hids, hpair, halike⟩ := howner k hk hmatchk
    obtain ⟨q, hq, hqid, hrow⟩ := exists_other_row hlawful hcsv hhtml hone hfree hkept hperm hperm₁ hid hmatch hk
      hmatchk hc' hk' hset' hids hpair halike
    obtain ⟨-, hright, -⟩ := mem_of_mem_pairs hq
    have hne' : h.optionId ≠ q.2.optionId := hhtml.ne_of_perm hperm₁ hright (hset _ hfirst)
    exact ⟨q, hq, hqid, Finset.mem_erase.mpr
      ⟨hne'.symm, (hmem _).mpr ⟨q.2, hperm₁.mem_iff.mpr (List.mem_cons_of_mem _ hright), hrow, rfl⟩⟩⟩
  have : Nonempty (BrokerTradeRecord F × BrokerTradeRecord F) := ⟨(c, h)⟩
  choose! owner hpair howned hrow using hother
  have hinj : Set.InjOn (fun n => (owner n).2.optionId) ids := by
    intro n hn n' hn' heq
    have hdistinct := @pairs_snd_distinct F tests csv₁ _ (List.pairwise_cons.mp (hhtml.perm hperm₁)).2
    have hsame : owner n = owner n' :=
      eq_of_distinct hdistinct (hpair n hn) (hpair n' hn') (hset _ (Finset.mem_of_mem_erase (hrow n hn))) heq
    rw [← howned n hn, ← howned n' hn', hsame]
  have hcard := Finset.card_le_card_of_injOn _ hrow hinj
  exact absurd hcard (not_le.mpr (Finset.card_erase_lt_of_mem hfirst))

theorem rowAlike_of_orderFree (hlawful : tests.Lawful) (hcsv : DistinctIds csv) (hhtml : DistinctIds html)
    (hone : MatchesOneWithoutId tests csv html)
    (hfree : OrderFree (recordsMatch tests) (enrichRecord tests) csv html) (hkept : KeepsIdentified tests csv html) :
    RowAlike (recordsMatch tests) (enrichRecord tests) csv html := by
  intro c hc h hh h' hh' hmatch hmatch'
  by_cases hid : c.optionId = 0
  · exact alike_of_withoutId hlawful hcsv hhtml hone hfree hkept hc hid hh hh' hmatch hmatch'
  · exact alike_of_withId hcsv hhtml hone hfree hc hid hh hh' hmatch hmatch'

end OptionX.IntradeBar
