import OptionX.Records.Lemmas.TradeStatsCurves
import OptionX.Records.Lemmas.TradeStatsOrder

/-!
# Lemmas on ties of balance snapshots

The balance curves sort the snapshots by their timestamp and account, and leave those of one account at one timestamp in
the order of the records. The order of the records does not matter exactly where it does not matter which of them comes
first or last.
-/

namespace OptionX.Records.TradeStatsCalculator

open Lib (OrderedMap)
open Lib.StableSort

variable {Zone : Type} {config : TradeStatsConfig Zone} {es es' : List BalanceSnapshotEvent}

/-- Snapshots of one account at one timestamp agree on the balance, where the account is the greatest of the timestamp,
and on the balance before them, where they are the first of all. -/
structure RecordSettled (config : TradeStatsConfig Zone) (es : List BalanceSnapshotEvent) : Prop where
  close : ∀ e ∈ es, ∀ e' ∈ es, e.key = e'.key → (∀ f ∈ es, f.ts = e.ts → f.account ≤ e.account) →
    closeBalanceOf config e = closeBalanceOf config e'
  opening : ∀ e ∈ es, ∀ e' ∈ es, e.key = e'.key → (∀ f ∈ es, e.key ≤ f.key) →
    initialBalanceForEvent config e = initialBalanceForEvent config e'

/-- Snapshots of one account at one timestamp agree on the balance, and on the balance before them, where the timestamp
is the first one of the account. -/
structure PortfolioSettled (config : TradeStatsConfig Zone) (es : List BalanceSnapshotEvent) : Prop where
  close : ∀ e ∈ es, ∀ e' ∈ es, e.key = e'.key → closeBalanceOf config e = closeBalanceOf config e'
  opening : ∀ e ∈ es, ∀ e' ∈ es, e.key = e'.key → (∀ f ∈ es, f.account = e.account → e.ts ≤ f.ts) →
    initialBalanceForEvent config e = initialBalanceForEvent config e'

theorem key_le_iff {e f : BalanceSnapshotEvent} : e.key ≤ f.key ↔ e.ts < f.ts ∨ e.ts = f.ts ∧ e.account ≤ f.account :=
  Prod.Lex.toLex_le_toLex

theorem key_eq_iff {e f : BalanceSnapshotEvent} : e.key = f.key ↔ e.ts = f.ts ∧ e.account = f.account := by
  simp [BalanceSnapshotEvent.key]

theorem mem_sortedEvents {e : BalanceSnapshotEvent} : e ∈ sortedEvents es ↔ e ∈ es := mem_sortOn

theorem mem_upTo {k : Int} {e : BalanceSnapshotEvent} : e ∈ upTo k es ↔ e ∈ es ∧ e.ts ≤ k := by
  simp [upTo, mem_sortedEvents]

theorem upTo_sorted (k : Int) (es : List BalanceSnapshotEvent) :
    (upTo k es).Pairwise fun e f => e.key ≤ f.key := (sortOn_sorted _ es).filter _

/-- The snapshots up to a time have the same keys in every order. -/
theorem upTo_keys (h : es.Perm es') (k : Int) :
    (upTo k es).map BalanceSnapshotEvent.key = (upTo k es').map BalanceSnapshotEvent.key :=
  map_filter_sortOn_eq (p := fun key : Int ×ₗ AccountKey => (ofLex key).1 ≤ k) h

/-- The snapshots of one account up to a time. -/
def ofAccount (account : AccountKey) (k : Int) (es : List BalanceSnapshotEvent) : List BalanceSnapshotEvent :=
  (upTo k es).filter (·.account = account)

theorem ofAccount_eq (account : AccountKey) (k : Int) (es : List BalanceSnapshotEvent) :
    ofAccount account k es =
      (sortedEvents es).filter fun e => decide ((ofLex e.key).2 = account) && decide ((ofLex e.key).1 ≤ k) := by
  rw [ofAccount, upTo, List.filter_filter]
  rfl

theorem ofAccount_keys (h : es.Perm es') (account : AccountKey) (k : Int) :
    (ofAccount account k es).map BalanceSnapshotEvent.key = (ofAccount account k es').map BalanceSnapshotEvent.key := by
  rw [ofAccount_eq, ofAccount_eq]
  exact map_filter_sortOn_eq (p := fun key : Int ×ₗ AccountKey => decide ((ofLex key).2 = account) && decide ((ofLex key).1 ≤ k)) h

theorem times_perm (h : es.Perm es') :
    times BalanceSnapshotEvent.ts (sortedEvents es) = times BalanceSnapshotEvent.ts (sortedEvents es') := by
  have hmap := congrArg (List.map fun key : Int ×ₗ AccountKey => (ofLex key).1) (map_sortOn_eq BalanceSnapshotEvent.key h)
  rw [List.map_map, List.map_map] at hmap
  exact times_congr hmap

/-- The first snapshot of all is not after any other. -/
theorem head?_least {e : BalanceSnapshotEvent} (h : (sortedEvents es).head? = some e) : ∀ f ∈ es, e.key ≤ f.key :=
  fun f hf => head?_le (sortOn_sorted _ es) h f (mem_sortedEvents.mpr hf)

theorem head?_upTo_least {k : Int} {e : BalanceSnapshotEvent} (h : (upTo k es).head? = some e) :
    ∀ f ∈ es, e.key ≤ f.key := by
  intro f hf
  have he := (mem_upTo.mp (List.mem_of_mem_head? (Option.mem_def.mpr h))).2
  by_cases hts : f.ts ≤ k
  · exact head?_le (upTo_sorted k es) h f (mem_upTo.mpr ⟨hf, hts⟩)
  · exact key_le_iff.mpr (Or.inl (by omega))

/-- What is read off the first snapshot of all. -/
theorem head?_congr {φ : BalanceSnapshotEvent → ℚ} (h : es.Perm es')
    (heq : ∀ e ∈ es, ∀ e' ∈ es, e.key = e'.key → (∀ f ∈ es, e.key ≤ f.key) → φ e = φ e') :
    (sortedEvents es).head?.map φ = (sortedEvents es').head?.map φ := by
  refine map_head?_congr BalanceSnapshotEvent.key (map_sortOn_eq BalanceSnapshotEvent.key h) fun e e' he he' hkey => ?_
  have hmem := mem_sortedEvents.mp (List.mem_of_mem_head? (Option.mem_def.mpr he))
  have hmem' := mem_sortedEvents.mp (List.mem_of_mem_head? (Option.mem_def.mpr he'))
  exact heq e hmem e' (h.mem_iff.mpr hmem') hkey (head?_least he)

theorem firstPeak_eq (event : CurveLoop → BalanceSnapshotEvent → CurveLoop) (es : List BalanceSnapshotEvent) :
    firstPeak event es = ((sortedEvents es).head?.map fun e => (event {} e).peak).getD 0 := by
  unfold firstPeak
  cases (sortedEvents es).head? <;> rfl

/-- Two orders whose states agree at every time draw the same curves. -/
theorem buildBalanceCurves_congr {event : CurveLoop → BalanceSnapshotEvent → CurveLoop} (hblind : Blind event)
    (hfirst : ∀ e, (event {} e).hasBaseline = true ∧ (event {} e).stats = {}) (h : es.Perm es')
    (hstates : ∀ k, ((upTo k es).foldl event {}).equity = ((upTo k es').foldl event {}).equity ∧
      ((upTo k es).foldl event {}).baseline = ((upTo k es').foldl event {}).baseline)
    (hpeak : firstPeak event es = firstPeak event es') : buildBalanceCurves event es = buildBalanceCurves event es' := by
  have hsamples : samples event es = samples event es' := by
    rw [samples, samples, times_perm h]
    refine List.map_congr_left fun k _ => ?_
    rw [sampleOf, sampleOf, (hstates k).1, (hstates k).2]
  rw [buildBalanceCurves_eq hblind hfirst, buildBalanceCurves_eq hblind hfirst, hsamples, hpeak]

/-! ## Settled snapshots -/

theorem record_perm (h : es.Perm es') (hsettled : RecordSettled config es) :
    buildRecordBalanceCurves config es = buildRecordBalanceCurves config es' := by
  have hmem : ∀ {e}, e ∈ es' → e ∈ es := fun he => h.mem_iff.mpr he
  refine buildBalanceCurves_congr (blind_record config) (fun e => ⟨rfl, rfl⟩) h (fun k => ?_) ?_
  · obtain ⟨-, hbaseline, hequity⟩ := foldl_record config (upTo k es)
    obtain ⟨-, hbaseline', hequity'⟩ := foldl_record config (upTo k es')
    rw [hbaseline, hequity, hbaseline', hequity']
    constructor
    · congr 1
      refine map_getLast?_congr BalanceSnapshotEvent.key (upTo_keys h k) fun e e' he he' hkey => ?_
      have hin := mem_upTo.mp (List.mem_of_getLast? he)
      refine hsettled.close e hin.1 e' (hmem (mem_upTo.mp (List.mem_of_getLast? he')).1) hkey fun f hf hts => ?_
      have hle := le_getLast? (upTo_sorted k es) he f (mem_upTo.mpr ⟨hf, hts ▸ hin.2⟩)
      rcases key_le_iff.mp hle with hlt | ⟨-, hle⟩
      · omega
      · exact hle
    · congr 1
      refine map_head?_congr BalanceSnapshotEvent.key (upTo_keys h k) fun e e' he he' hkey => ?_
      have hin := mem_upTo.mp (List.mem_of_mem_head? (Option.mem_def.mpr he))
      have hin' := mem_upTo.mp (List.mem_of_mem_head? (Option.mem_def.mpr he'))
      exact hsettled.opening e hin.1 e' (hmem hin'.1) hkey (head?_upTo_least he)
  · rw [firstPeak_eq, firstPeak_eq]
    congr 1
    exact head?_congr h hsettled.opening

/-- What is read off the first snapshot of an account up to a time. -/
theorem ofAccount_first {account : AccountKey} {k : Int} {e : BalanceSnapshotEvent}
    (h : (ofAccount account k es).head? = some e) :
    e ∈ es ∧ e.account = account ∧ ∀ f ∈ es, f.account = e.account → e.ts ≤ f.ts := by
  have hmem := List.mem_filter.mp (List.mem_of_mem_head? (Option.mem_def.mpr h))
  have hin := mem_upTo.mp hmem.1
  have haccount := of_decide_eq_true hmem.2
  refine ⟨hin.1, haccount, fun f hf hfa => ?_⟩
  by_cases hts : f.ts ≤ k
  · have hf' : f ∈ ofAccount account k es :=
      List.mem_filter.mpr ⟨mem_upTo.mpr ⟨hf, hts⟩, by simpa using hfa.trans haccount⟩
    rcases key_le_iff.mp (head?_le ((upTo_sorted k es).filter _) h f hf') with hlt | ⟨heq, -⟩
    · omega
    · omega
  · omega

theorem portfolio_perm (h : es.Perm es') (hsettled : PortfolioSettled config es) :
    buildPortfolioBalanceCurves config es = buildPortfolioBalanceCurves config es' := by
  have hmem : ∀ {e}, e ∈ es' → e ∈ es := fun he => h.mem_iff.mpr he
  refine buildBalanceCurves_congr (blind_portfolio config) (fun e => ⟨rfl, rfl⟩) h (fun k => ?_) ?_
  · have hstate := foldl_portfolio config (upTo k es)
    have hstate' := foldl_portfolio config (upTo k es')
    rw [hstate.equity, hstate'.equity, hstate.baseline, hstate'.baseline]
    constructor
    · congr 1
      refine OrderedMap.ext_find? fun account => ?_
      rw [hstate.balances, hstate'.balances]
      refine map_getLast?_congr BalanceSnapshotEvent.key (ofAccount_keys h account k) fun e e' he he' hkey => ?_
      have hin := mem_upTo.mp (List.mem_filter.mp (List.mem_of_getLast? he)).1
      have hin' := mem_upTo.mp (List.mem_filter.mp (List.mem_of_getLast? he')).1
      exact hsettled.close e hin.1 e' (hmem hin'.1) hkey
    · congr 1
      refine OrderedMap.ext_find? fun account => ?_
      rw [find?_openings, find?_openings]
      refine map_head?_congr BalanceSnapshotEvent.key (ofAccount_keys h account k) fun e e' he he' hkey => ?_
      obtain ⟨hin, -, hfirst⟩ := ofAccount_first he
      exact hsettled.opening e hin e' (hmem (ofAccount_first he').1) hkey hfirst
  · rw [firstPeak_eq, firstPeak_eq]
    congr 1
    refine head?_congr h fun e he e' he' hkey hleast => ?_
    have hopening := hsettled.opening e he e' he' hkey fun f hf hfa => by
      rcases key_le_iff.mp (hleast f hf) with hlt | ⟨heq, -⟩
      · omega
      · omega
    simp [portfolioBalanceEvent, hopening]

/-! ## Ties that matter -/

/-- Two orders with the same curves agree at every time that a snapshot has. -/
theorem states_of_curves {event : CurveLoop → BalanceSnapshotEvent → CurveLoop} (hblind : Blind event)
    (hfirst : ∀ e, (event {} e).hasBaseline = true ∧ (event {} e).stats = {}) (h : es.Perm es')
    (heq : buildBalanceCurves event es = buildBalanceCurves event es') {e : BalanceSnapshotEvent} (he : e ∈ es) :
    ((upTo e.ts es).foldl event {}).equity = ((upTo e.ts es').foldl event {}).equity ∧
      ((upTo e.ts es).foldl event {}).baseline = ((upTo e.ts es').foldl event {}).baseline := by
  rw [buildBalanceCurves_eq hblind hfirst, buildBalanceCurves_eq hblind hfirst] at heq
  have hsamples := samples_inj heq
  rw [samples, samples, times_perm h, List.map_inj_left] at hsamples
  have hts : e.ts ∈ times BalanceSnapshotEvent.ts (sortedEvents es') :=
    mem_times.mpr ⟨e, mem_sortedEvents.mpr (h.mem_iff.mp he), rfl⟩
  have hsample := hsamples e.ts hts
  simp only [sampleOf, Prod.mk.injEq, true_and] at hsample
  exact hsample

theorem record_last {rest : List BalanceSnapshotEvent} {e : BalanceSnapshotEvent}
    (hmax : ∀ f ∈ rest, f.ts = e.ts → f.account ≤ e.account) :
    ((upTo e.ts (rest ++ [e])).foldl (recordBalanceEvent config) {}).equity = closeBalanceOf config e := by
  have hlast : (upTo e.ts (rest ++ [e])).getLast? = some e := by
    refine getLast?_part (p := fun key : Int ×ₗ AccountKey => (ofLex key).1 ≤ e.ts) (by simp [BalanceSnapshotEvent.key])
      fun f hf hp => key_le_iff.mpr ?_
    have hts : f.ts ≤ e.ts := of_decide_eq_true hp
    rcases hts.lt_or_eq with hlt | heq
    · exact Or.inl hlt
    · exact Or.inr ⟨heq, hmax f hf heq⟩
  rw [(foldl_record _ _).2.2, hlast]
  rfl

theorem record_first {rest : List BalanceSnapshotEvent} {e : BalanceSnapshotEvent} (hmin : ∀ f ∈ rest, e.key ≤ f.key) :
    ((upTo e.ts (e :: rest)).foldl (recordBalanceEvent config) {}).baseline = initialBalanceForEvent config e := by
  have hhead : (upTo e.ts (e :: rest)).head? = some e :=
    head?_part (p := fun key : Int ×ₗ AccountKey => (ofLex key).1 ≤ e.ts) (by simp [BalanceSnapshotEvent.key])
      fun f hf _ => hmin f hf
  rw [(foldl_record _ _).2.1, hhead]
  rfl

variable (config) in
theorem portfolio_last (rest : List BalanceSnapshotEvent) (e : BalanceSnapshotEvent) :
    ((upTo e.ts (rest ++ [e])).foldl (portfolioBalanceEvent config) {}).accountBalances.find? e.account =
      some (closeBalanceOf config e) := by
  have hlast : (ofAccount e.account e.ts (rest ++ [e])).getLast? = some e := by
    rw [ofAccount_eq]
    refine getLast?_part
      (p := fun key : Int ×ₗ AccountKey => decide ((ofLex key).2 = e.account) && decide ((ofLex key).1 ≤ e.ts))
      (by simp [BalanceSnapshotEvent.key]) fun f _ hp => key_le_iff.mpr ?_
    simp only [Bool.and_eq_true, decide_eq_true_eq] at hp
    rcases (show f.ts ≤ e.ts from hp.2).lt_or_eq with hlt | heq
    · exact Or.inl hlt
    · exact Or.inr ⟨heq, (show f.account = e.account from hp.1).le⟩
  rw [(foldl_portfolio _ _).balances, ← ofAccount, hlast]
  rfl

variable (config) in
theorem portfolio_first (rest : List BalanceSnapshotEvent) (e : BalanceSnapshotEvent)
    (hmin : ∀ f ∈ rest, f.account = e.account → e.ts ≤ f.ts) :
    (openings config (upTo e.ts (e :: rest))).find? e.account = some (initialBalanceForEvent config e) := by
  have hhead : (ofAccount e.account e.ts (e :: rest)).head? = some e := by
    rw [ofAccount_eq]
    refine head?_part
      (p := fun key : Int ×ₗ AccountKey => decide ((ofLex key).2 = e.account) && decide ((ofLex key).1 ≤ e.ts))
      (by simp [BalanceSnapshotEvent.key]) fun f hf hp => key_le_iff.mpr ?_
    simp only [Bool.and_eq_true, decide_eq_true_eq] at hp
    have haccount : f.account = e.account := hp.1
    rcases (hmin f hf haccount).lt_or_eq with hlt | heq
    · exact Or.inl hlt
    · exact Or.inr ⟨heq, haccount.ge⟩
  rw [find?_openings, ← ofAccount, hhead]
  rfl

/-- The other accounts do not notice a change of order within one key. -/
theorem ofAccount_congr (key : Int ×ₗ AccountKey) (h : ∀ k, k ≠ key → es.filter (·.key = k) = es'.filter (·.key = k))
    {account : AccountKey} (ha : account ≠ (ofLex key).2) (k : Int) : ofAccount account k es = ofAccount account k es' := by
  rw [ofAccount_eq, ofAccount_eq]
  refine filter_sortOn_congr
    (p := fun key : Int ×ₗ AccountKey => decide ((ofLex key).2 = account) && decide ((ofLex key).1 ≤ k))
    fun key' hp => ?_
  have hne : key' ≠ key := by
    rintro rfl
    simp only [Bool.and_eq_true, decide_eq_true_eq] at hp
    exact ha hp.1.symm
  convert h key' hne

/-- The snapshots of the records that reach the money figures. -/
def balanceEvents (shield : TimeShield Zone) (config : TradeStatsConfig Zone) (records : List (TradeRecord ℚ)) :
    List BalanceSnapshotEvent :=
  (records.filter (hasResult shield config)).filterMap balanceEvent

section Orders

variable {shield : TimeShield Zone} {records records' : List (TradeRecord ℚ)} {e e' : BalanceSnapshotEvent}

theorem balanceEvents_perm (h : records.Perm records') :
    (balanceEvents shield config records).Perm (balanceEvents shield config records') :=
  (h.filter _).filterMap _

/-- The record of a snapshot can be moved to the end, or to the front, without any change within the other keys. -/
theorem exists_moved (he : e ∈ balanceEvents shield config records) : ∃ (r : TradeRecord ℚ) (rest : List (TradeRecord ℚ)),
    (rest ++ [r]).Perm records ∧ (r :: rest).Perm records ∧
    balanceEvents shield config (rest ++ [r]) = balanceEvents shield config rest ++ [e] ∧
    balanceEvents shield config (r :: rest) = e :: balanceEvents shield config rest ∧
    ∀ k, k ≠ e.key → (balanceEvents shield config rest).filter (·.key = k) =
      (balanceEvents shield config records).filter (·.key = k) := by
  obtain ⟨r, hr, hevent⟩ := List.mem_filterMap.mp he
  obtain ⟨hmem, hresult⟩ := List.mem_filter.mp hr
  obtain ⟨front, back, rfl⟩ := List.append_of_mem hmem
  have happend : ∀ l l' : List (TradeRecord ℚ), balanceEvents shield config (l ++ l') =
      balanceEvents shield config l ++ balanceEvents shield config l' := fun l l' => by
    simp [balanceEvents, List.filterMap_append]
  have hone : balanceEvents shield config [r] = [e] := by simp [balanceEvents, hresult, hevent]
  have hcons : ∀ l, balanceEvents shield config (r :: l) = e :: balanceEvents shield config l := fun l => by
    rw [← List.singleton_append, happend, hone, List.singleton_append]
  refine ⟨r, front ++ back, ?_, List.perm_middle.symm, by rw [happend, hone], hcons _, fun k hk => ?_⟩
  · exact (List.perm_append_singleton r _).trans List.perm_middle.symm
  · rw [happend, happend, hcons, List.filter_append, List.filter_append, List.filter_cons_of_neg]
    simpa using Ne.symm hk

/-- Every order gives the same equity curves. -/
def EquityOrderFree (shield : TimeShield Zone) (config : TradeStatsConfig Zone) (records : List (TradeRecord ℚ)) : Prop :=
  ∀ records' : List (TradeRecord ℚ), records'.Perm records → buildEquityCurves config (records'.filter (hasResult shield config)) =
    buildEquityCurves config (records.filter (hasResult shield config))

theorem recordSettled_of_orderFree (hmode : config.equityMode = .recordBalance)
    (h : EquityOrderFree shield config records) : RecordSettled config (balanceEvents shield config records) := by
  have hstates : ∀ records' : List (TradeRecord ℚ), records'.Perm records →
      ∀ f ∈ balanceEvents shield config records, _ :=
    fun records' hperm f hf => states_of_curves (blind_record config) (fun e => ⟨rfl, rfl⟩)
      (balanceEvents_perm hperm).symm (by
        have hcurves := (h records' hperm).symm
        simp only [buildEquityCurves, hmode] at hcurves
        exact hcurves) hf
  constructor
  case close =>
    intro e he e' he' hkey hmax
    have hlast : ∀ f ∈ balanceEvents shield config records, f.key = e.key →
        ((upTo e.ts (balanceEvents shield config records)).foldl (recordBalanceEvent config) {}).equity =
          closeBalanceOf config f := fun f hf hfkey => by
      obtain ⟨hfts, hfaccount⟩ := key_eq_iff.mp hfkey
      obtain ⟨r, rest, hperm, -, hmoved, -, -⟩ := exists_moved hf
      have hequity := (hstates _ hperm f hf).1
      rw [hmoved] at hequity
      rw [← hfts, hequity, record_last fun g hg hgts => ?_]
      have hmem : g ∈ balanceEvents shield config records :=
        (balanceEvents_perm hperm).mem_iff.mp (by rw [hmoved]; exact List.mem_append_left _ hg)
      rw [hfaccount]
      exact hmax g hmem (hgts.trans hfts)
    exact (hlast e he rfl).symm.trans (hlast e' he' hkey.symm)
  case opening =>
    intro e he e' he' hkey hmin
    have hfirst : ∀ f ∈ balanceEvents shield config records, f.key = e.key →
        ((upTo e.ts (balanceEvents shield config records)).foldl (recordBalanceEvent config) {}).baseline =
          initialBalanceForEvent config f := fun f hf hfkey => by
      obtain ⟨r, rest, -, hperm, -, hmoved, -⟩ := exists_moved hf
      have hbaseline := (hstates _ hperm f hf).2
      rw [hmoved] at hbaseline
      rw [← (key_eq_iff.mp hfkey).1, hbaseline, record_first fun g hg => ?_]
      have hmem : g ∈ balanceEvents shield config records :=
        (balanceEvents_perm hperm).mem_iff.mp (by rw [hmoved]; exact List.mem_cons_of_mem _ hg)
      exact hfkey ▸ hmin g hmem
    exact (hfirst e he rfl).symm.trans (hfirst e' he' hkey.symm)

theorem portfolioSettled_of_orderFree (hmode : config.equityMode = .portfolioBalance)
    (h : EquityOrderFree shield config records) : PortfolioSettled config (balanceEvents shield config records) := by
  have hstates : ∀ records' : List (TradeRecord ℚ), records'.Perm records →
      ∀ f ∈ balanceEvents shield config records, _ :=
    fun records' hperm f hf => states_of_curves (blind_portfolio config) (fun e => ⟨rfl, rfl⟩)
      (balanceEvents_perm hperm).symm (by
        have hcurves := (h records' hperm).symm
        simp only [buildEquityCurves, hmode] at hcurves
        exact hcurves) hf
  constructor
  case close =>
    intro e he e' he' hkey
    obtain ⟨hts, haccount⟩ := key_eq_iff.mp hkey
    obtain ⟨r, rest, hperm, -, hmoved, -, hsame⟩ := exists_moved he
    obtain ⟨r', rest', hperm', -, hmoved', -, hsame'⟩ := exists_moved he'
    have hequity := (hstates _ hperm e he).1.symm.trans (hts ▸ (hstates _ hperm' e' he').1)
    rw [hmoved, hmoved', (foldl_portfolio _ _).equity, (foldl_portfolio _ _).equity] at hequity
    have hfind' := portfolio_last config (balanceEvents shield config rest') e'
    rw [← hts, ← haccount] at hfind'
    refine OrderedMap.eq_of_sumOf_eq (f := id) (portfolio_last _ _ e) hfind' (fun account ha => ?_) hequity
    rw [(foldl_portfolio _ _).balances, (foldl_portfolio _ _).balances, ← ofAccount, ← ofAccount]
    rw [ofAccount_congr e.key (fun k hk => ?_) ha]
    have hne : ∀ f : BalanceSnapshotEvent, f.key = e.key → ¬ f.key = k := fun f hf hfk => hk (hfk.symm.trans hf)
    rw [List.filter_append, List.filter_append, hsame k hk, hsame' k (hkey ▸ hk)]
    simp [hne e rfl, hne e' hkey.symm]
  case opening =>
    intro e he e' he' hkey hmin
    obtain ⟨hts, haccount⟩ := key_eq_iff.mp hkey
    obtain ⟨r, rest, -, hperm, -, hmoved, hsame⟩ := exists_moved he
    obtain ⟨r', rest', -, hperm', -, hmoved', hsame'⟩ := exists_moved he'
    have hbaseline := (hstates _ hperm e he).2.symm.trans (hts ▸ (hstates _ hperm' e' he').2)
    rw [hmoved, hmoved', (foldl_portfolio _ _).baseline, (foldl_portfolio _ _).baseline] at hbaseline
    have hmem : ∀ f, f ∈ balanceEvents shield config rest → f ∈ balanceEvents shield config records := fun f hf =>
      (balanceEvents_perm hperm).mem_iff.mp (by rw [hmoved]; exact List.mem_cons_of_mem _ hf)
    have hmem' : ∀ f, f ∈ balanceEvents shield config rest' → f ∈ balanceEvents shield config records := fun f hf =>
      (balanceEvents_perm hperm').mem_iff.mp (by rw [hmoved']; exact List.mem_cons_of_mem _ hf)
    have hfind := portfolio_first config (balanceEvents shield config rest) e fun f hf hfa => hmin f (hmem f hf) hfa
    have hfind' := portfolio_first config (balanceEvents shield config rest') e'
      fun f hf hfa => hts ▸ hmin f (hmem' f hf) (hfa.trans haccount.symm)
    rw [← hts, ← haccount] at hfind'
    refine OrderedMap.eq_of_sumOf_eq (f := id) hfind hfind' (fun account ha => ?_) hbaseline
    rw [find?_openings, find?_openings, ← ofAccount, ← ofAccount]
    rw [ofAccount_congr e.key (fun k hk => ?_) ha]
    have hne : ∀ f : BalanceSnapshotEvent, f.key = e.key → ¬ f.key = k := fun f hf hfk => hk (hfk.symm.trans hf)
    rw [List.filter_cons_of_neg (by simpa using hne e rfl), List.filter_cons_of_neg (by simpa using hne e' hkey.symm),
      hsame k hk, hsame' k (hkey ▸ hk)]

/-- The snapshots of one account at one timestamp agree wherever the mode reads the first or the last of them. -/
def Settled (shield : TimeShield Zone) (config : TradeStatsConfig Zone) (records : List (TradeRecord ℚ)) : Prop :=
  match config.equityMode with
  | .syntheticProfit => True
  | .recordBalance => RecordSettled config (balanceEvents shield config records)
  | .portfolioBalance => PortfolioSettled config (balanceEvents shield config records)

theorem equityOrderFree_iff : EquityOrderFree shield config records ↔ Settled shield config records := by
  unfold Settled
  cases hmode : config.equityMode with
  | syntheticProfit =>
      refine ⟨fun _ => trivial, fun _ records' hperm => ?_⟩
      simp only [buildEquityCurves, hmode, profitBy_perm (hperm.filter _)]
  | recordBalance =>
      refine ⟨recordSettled_of_orderFree hmode, fun hsettled records' hperm => ?_⟩
      have hcurves := record_perm (balanceEvents_perm hperm).symm hsettled
      simp only [buildEquityCurves, hmode]
      exact hcurves.symm
  | portfolioBalance =>
      refine ⟨portfolioSettled_of_orderFree hmode, fun hsettled records' hperm => ?_⟩
      have hcurves := portfolio_perm (balanceEvents_perm hperm).symm hsettled
      simp only [buildEquityCurves, hmode]
      exact hcurves.symm

end Orders

end OptionX.Records.TradeStatsCalculator
