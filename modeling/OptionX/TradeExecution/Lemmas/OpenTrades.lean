import OptionX.TradeExecution.Lemmas.Conservation

/-!
# The open-trade counters

`Balanced` ties the four counters to the open list and to the due times. What a step publishes is then an upper
bound of the count it leaves behind, also where the queue forgets a snapshot without telling anyone.
-/

namespace OptionX.TradeExecution

namespace TradeQueueManager

variable {F : Type}

/-- The open-trade accounting between two operations. -/
structure Balanced (s : TradeQueueManager F) : Prop where
  counter : s.localOpenTrades = s.openTransactions.length
  sorted : s.snapshotCloseDueTimesMs.Pairwise (· ≤ ·)
  split : s.snapshotOpenTrades = s.snapshotCloseDueTimesMs.length + s.snapshotUnknownCloseTrades
  unknown_nonneg : 0 ≤ s.snapshotUnknownCloseTrades

theorem Balanced.create [Zero F] (required : Bool) : Balanced (create (F := F) required) :=
  ⟨rfl, .nil, rfl, le_refl _⟩

/-- The count that the listeners know after some notifications, `v` before them. -/
def lastEmitted (v : Int) (ns : List (Notice F)) : Int := (ns.filterMap Notice.count?).getLast?.getD v

@[simp] theorem lastEmitted_nil (v : Int) : lastEmitted v ([] : List (Notice F)) = v := rfl

theorem lastEmitted_append (v : Int) (ns ns' : List (Notice F)) :
    lastEmitted v (ns ++ ns') = lastEmitted (lastEmitted v ns) ns' := by
  simp only [lastEmitted, List.filterMap_append]
  exact getLast?_getD_append _ _ _

theorem lastEmitted_mono {v w : Int} (h : v ≤ w) (ns : List (Notice F)) :
    lastEmitted v ns ≤ lastEmitted w ns := by
  simp only [lastEmitted]
  cases (ns.filterMap Notice.count?).getLast? with
  | none => exact h
  | some c => exact le_refl c

theorem lastEmitted_of_none {ns : List (Notice F)} (h : ∀ n ∈ ns, n.count? = none) (v : Int) :
    lastEmitted v ns = v := by
  simp [lastEmitted, List.filterMap_eq_nil_iff.mpr h]

/-- What a step may do to the counters: they stay balanced, no listener is left with too low a count, and the
count goes up to `bound` at most. -/
structure Accounted (s s' : TradeQueueManager F) (ns : List (Notice F)) (bound : Int) : Prop where
  balanced : Balanced s'
  published : s'.currentOpenTrades ≤ lastEmitted s.currentOpenTrades ns
  bounded : s'.currentOpenTrades ≤ max s.currentOpenTrades bound

theorem Accounted.of_same {s s' : TradeQueueManager F} {ns : List (Notice F)} {bound : Int}
    (hb : Balanced s') (hp : lastEmitted s.currentOpenTrades ns = s'.currentOpenTrades)
    (hle : s'.currentOpenTrades ≤ max s.currentOpenTrades bound) : Accounted s s' ns bound :=
  ⟨hb, hp.ge, hle⟩

theorem Accounted.refl {s : TradeQueueManager F} (h : Balanced s) (bound : Int) : Accounted s s [] bound :=
  .of_same h rfl (le_max_left _ _)

/-- Asking for a fresh snapshot counts nothing. -/
theorem Accounted.refresh {s s' : TradeQueueManager F} {ns : List (Notice F)} {bound : Int}
    (h : Accounted s s' ns bound) (reason : String) :
    Accounted s (s'.requestSnapshotRefresh reason).1 (ns ++ (s'.requestSnapshotRefresh reason).2)
      bound := by
  obtain ⟨he, hn⟩ := s'.requestSnapshotRefresh_spec reason
  have hc : (s'.requestSnapshotRefresh reason).1.currentOpenTrades = s'.currentOpenTrades := by
    rw [he]
    rfl
  refine ⟨?_, ?_, ?_⟩
  · rw [he]
    exact ⟨h.balanced.counter, h.balanced.sorted, h.balanced.split, h.balanced.unknown_nonneg⟩
  · rw [hc, lastEmitted_append, lastEmitted_of_none (fun n hm => (hn n hm).2.2)]
    exact h.published
  · rw [hc]
    exact h.bounded

/-- Announcing the new count, and perhaps asking for a fresh snapshot. -/
theorem Accounted.announce {s s' : TradeQueueManager F} {bound : Int} (hb : Balanced s')
    (hle : s'.currentOpenTrades ≤ max s.currentOpenTrades bound) (c : Prop) [Decidable c]
    (reason : String) :
    Accounted s
      (if c then ((s'.requestSnapshotRefresh reason).1,
        s'.emitOpenTrades none :: (s'.requestSnapshotRefresh reason).2)
      else (s', [s'.emitOpenTrades none])).1
      (if c then ((s'.requestSnapshotRefresh reason).1,
        s'.emitOpenTrades none :: (s'.requestSnapshotRefresh reason).2)
      else (s', [s'.emitOpenTrades none])).2 bound := by
  have hemit : Accounted s s' [s'.emitOpenTrades none] bound := .of_same hb rfl hle
  by_cases hc : c
  · simp only [if_pos hc]
    exact hemit.refresh reason
  · simp only [if_neg hc]
    exact hemit

theorem announce_count (s : TradeQueueManager F) (c : Prop) [Decidable c] (reason : String) :
    (if c then ((s.requestSnapshotRefresh reason).1,
      s.emitOpenTrades none :: (s.requestSnapshotRefresh reason).2)
    else (s, [s.emitOpenTrades none])).1.currentOpenTrades = s.currentOpenTrades := by
  split
  · simp only [(s.requestSnapshotRefresh_spec reason).1]
    rfl
  · rfl

/-! ## The steps -/

/-- A pass over the open transactions. -/
theorem eachOpen_accounted {handle : TradeQueueManager F → Transaction F → Handled F} (h : Sound handle)
    {s : TradeQueueManager F} (hb : Balanced s) (bound : Int) :
    Accounted s (s.eachOpen handle).1 (s.eachOpen handle).2 bound := by
  have hf := h.each_framed s s.openTransactions
  have hcount := h.each_counter s hb.counter.ge
  have hlen := each_length_le handle s s.openTransactions
  have hpub := h.each_published s s.openTransactions
  have hb' : Balanced (s.eachOpen handle).1 := by
    refine ⟨?_, ?_, ?_, ?_⟩
    · simp only [eachOpen_fst, hcount, hb.counter]
      omega
    · exact hf.due ▸ hb.sorted
    · simp only [eachOpen_fst, hf.due, hf.snapshotOpen, hf.unknown]
      exact hb.split
    · exact hf.unknown ▸ hb.unknown_nonneg
  refine .of_same hb' hpub (le_trans ?_ (le_max_left _ _))
  have hl := hb.counter
  simp only [currentOpenTrades, eachOpen_fst, hf.snapshotOpen, hcount]
  omega

/-- The snapshot pass takes the due trades off every counter at once. -/
theorem processSnapshot_accounted {s : TradeQueueManager F} (hb : Balanced s) (nowMs bound : Int) :
    Accounted s (s.processSnapshotOpenTrades nowMs).1 (s.processSnapshotOpenTrades nowMs).2 bound := by
  obtain ⟨hcount, hsorted, hsplit, hun⟩ := hb
  have hrefl : Accounted s s [] bound := .refl ⟨hcount, hsorted, hsplit, hun⟩ bound
  unfold processSnapshotOpenTrades
  split
  · exact hrefl
  split
  · split
    · exact hrefl.refresh _
    · exact hrefl
  dsimp only
  split
  · exact hrefl
  have hdue : (s.snapshotCloseDueTimesMs.takeWhile (· ≤ nowMs)).length ≤
      s.snapshotCloseDueTimesMs.length := (List.takeWhile_sublist _).length_le
  refine Accounted.announce ?_ ?_ _ _
  · refine ⟨hcount, List.Pairwise.sublist (List.drop_sublist _ _) hsorted, ?_, ?_⟩ <;>
      simp only [List.length_drop] <;> split <;> omega
  · refine le_trans ?_ (le_max_left _ _)
    simp only [currentOpenTrades]
    split <;> omega

/-- The count that an accepted broker snapshot sets. -/
def acceptedBy (s : TradeQueueManager F) : Event F → Option Int
  | .openTradesSnapshot event => if s.acceptsSnapshot then some (max 0 event.openTrades) else none
  | _ => none

theorem onOpenTradesSnapshot_accounted {s : TradeQueueManager F} (hb : Balanced s)
    (event : OpenTradesSnapshot) {bound : Int}
    (hbound : ∀ n, acceptedBy s (.openTradesSnapshot event) = some n → n ≤ bound) :
    Accounted s (s.onOpenTradesSnapshot event).1 (s.onOpenTradesSnapshot event).2 bound := by
  obtain ⟨hcount, hsorted, hsplit, hun⟩ := hb
  have hrefl : Accounted s { s with snapshotRefreshRequested := false } [] bound :=
    .of_same ⟨hcount, hsorted, hsplit, hun⟩ rfl (le_max_left _ _)
  unfold onOpenTradesSnapshot
  dsimp only
  split
  · exact hrefl.refresh _
  rename_i hacc
  have hacc' : s.acceptsSnapshot = true := by
    rw [Bool.not_eq_true', Bool.not_eq_false] at hacc
    exact hacc
  have hn := hbound (max 0 event.openTrades) (by simp [acceptedBy, hacc'])
  have hidle : s.localOpenTrades ≤ 0 := by
    simp only [acceptsSnapshot, Bool.not_eq_true', Bool.or_eq_false_iff, decide_eq_false_iff_not,
      not_lt] at hacc'
    exact hacc'.2
  generalize (if 0 < max 0 event.openTrades then _ else _ : List Int) = known
  have hlen := List.length_take_le (max 0 event.openTrades).toNat (known.mergeSort (· ≤ ·))
  have hknown : (known.mergeSort (· ≤ ·)).Pairwise (· ≤ ·) :=
    (List.pairwise_mergeSort
      (fun a b c hab hbc => by simp only [decide_eq_true_eq] at *; omega)
      (fun a b => by simp only [Bool.or_eq_true, decide_eq_true_eq]; omega) known).imp
      (fun h => by simpa using h)
  refine Accounted.announce ?_ ?_ _ _
  · refine ⟨hcount, List.Pairwise.sublist (List.take_sublist _ _) hknown, ?_, le_max_left _ _⟩
    simp only
    omega
  · simp only [currentOpenTrades]
    omega

theorem onSnapshotAvailability_accounted {s : TradeQueueManager F} (hb : Balanced s) (ready : Bool)
    (bound : Int) : Accounted s (s.onSnapshotAvailability ready) [] bound := by
  obtain ⟨hcount, hsorted, hsplit, hun⟩ := hb
  unfold onSnapshotAvailability
  split
  · exact .refl ⟨hcount, hsorted, hsplit, hun⟩ bound
  dsimp only
  split
  · exact .of_same ⟨hcount, hsorted, hsplit, hun⟩ rfl (le_max_left _ _)
  · -- the snapshot is forgotten and nobody is told: the listeners keep the higher count
    have hlow : s.localOpenTrades ≤ s.localOpenTrades + s.snapshotOpenTrades := by omega
    refine ⟨⟨hcount, .nil, rfl, le_refl _⟩, ?_, le_trans ?_ (le_max_left _ _)⟩ <;>
      simpa [clearSnapshotOpenTrades, currentOpenTrades] using hlow

section Money

variable [Zero F] [Add F]

theorem finalizeAllTrades_accounted {s : TradeQueueManager F} (hb : Balanced s) (account : AccountInfo F)
    (nowMs bound : Int) :
    Accounted s (s.finalizeAllTrades account nowMs).1 (s.finalizeAllTrades account nowMs).2 bound := by
  have hpass := eachOpen_accounted (forceClose_sound (F := F) account nowMs)
    (s := { s with pendingTransactions := [] }) ⟨hb.counter, hb.sorted, hb.split, hb.unknown_nonneg⟩ bound
  have hrej : ∀ n ∈ s.pendingTransactions.map (fun t => Notice.trade (rejectPending account nowMs t)),
      n.count? = none := by
    intro n hn
    obtain ⟨t, _, rfl⟩ := List.mem_map.mp hn
    rfl
  generalize hclosed : { s with pendingTransactions := [] }.eachOpen (forceClose account nowMs) = closed
    at hpass
  have hlocal : (s.finalizeAllTrades account nowMs).1.localOpenTrades = closed.1.localOpenTrades := by
    rw [← hclosed]
    rfl
  have hopen : (s.finalizeAllTrades account nowMs).1.openTransactions = closed.1.openTransactions := by
    rw [← hclosed]
    rfl
  have hcur : (s.finalizeAllTrades account nowMs).1.currentOpenTrades = closed.1.localOpenTrades := by
    rw [← hclosed]
    exact Int.add_zero _
  have hns : (s.finalizeAllTrades account nowMs).2 =
      s.pendingTransactions.map (fun t => .trade (rejectPending account nowMs t)) ++ closed.2 ++
        if closed.1.clearSnapshotOpenTrades.2 then
          [closed.1.clearSnapshotOpenTrades.1.emitOpenTrades none] else [] := by
    rw [← hclosed]
    rfl
  obtain ⟨⟨hc, _, hsp, hun⟩, hpub, hle⟩ := hpass
  have hlow : closed.1.localOpenTrades ≤ closed.1.currentOpenTrades := by
    simp only [currentOpenTrades]
    omega
  refine ⟨⟨?_, .nil, rfl, le_refl _⟩, ?_, ?_⟩
  · rw [hlocal, hopen]
    exact hc
  · rw [hcur, hns, lastEmitted_append, lastEmitted_append, lastEmitted_of_none hrej]
    split
    · exact (Int.add_zero _).ge
    · exact le_trans hlow hpub
  · rw [hcur]
    exact le_trans hlow hle

theorem processPending_accounted {s : TradeQueueManager F} (hb : Balanced s) (account : AccountInfo F)
    (clock : Clock) {bound : Int}
    (hbound : ∀ request, account.openTrades request < account.maxTrades request →
      s.currentOpenTrades < bound) :
    Accounted s (s.processPendingTransactions account clock).1
      (s.processPendingTransactions account clock).2 bound := by
  obtain ⟨hcount, hsorted, hsplit, hun⟩ := hb
  rcases s.processPending_cases account clock with he | ⟨t, rest, _, hlt, ⟨t₀, _, he⟩ | ⟨u, _, _, he⟩⟩
  · rw [he]
    exact .of_same ⟨hcount, hsorted, hsplit, hun⟩ rfl (le_max_left _ _)
  · obtain ⟨t', _, _, _, ho, _, hl, hso, hunk, hdue, hns⟩ :=
      sendOrder_spec { s with pendingTransactions := rest } account clock t₀
    have hroom := hbound t.request hlt
    have hc : ({ s with pendingTransactions := rest }.sendOrder account clock t₀).1.currentOpenTrades =
        s.currentOpenTrades + 1 := by
      simp only [currentOpenTrades, hl, hso]
      omega
    rw [he]
    refine .of_same ⟨?_, ?_, ?_, ?_⟩ ?_ ?_
    · rw [hl, ho, hcount, List.length_append]
      rfl
    · rw [hdue]
      exact hsorted
    · rw [hso, hunk, hdue]
      exact hsplit
    · rw [hunk]
      exact hun
    · rw [hns, hc]
      rfl
    · rw [hc]
      omega
  · rw [he]
    exact .of_same ⟨hcount, hsorted, hsplit, hun⟩ rfl (le_max_left _ _)

end Money

/-! ## Every step -/

variable [Zero F] [Add F] [DecidableEq F] [LT F] [DecidableLT F]

/-- Every step is accounted for, with `bound` above what it accepts and above what it may send under. -/
theorem step_accounted {s : TradeQueueManager F} (hb : Balanced s) (e : Event F) (bound : Int)
    (haccept : ∀ n, acceptedBy s e = some n → n ≤ bound)
    (hsend : ∀ account clock, e = .processPending account clock → ∀ request,
      account.openTrades request < account.maxTrades request → s.currentOpenTrades < bound) :
    Accounted s (s.step e).1 (s.step e).2 bound := by
  cases e with
  | addTrade account call nowMs =>
      have hsame : Balanced (s.addTrade account call nowMs).1 ∧
          (s.addTrade account call nowMs).1.currentOpenTrades = s.currentOpenTrades := by
        rcases s.addTrade_cases account call nowMs with he | ⟨t, _, he⟩ <;> rw [he]
        · exact ⟨hb, rfl⟩
        · exact ⟨⟨hb.counter, hb.sorted, hb.split, hb.unknown_nonneg⟩, rfl⟩
      exact .of_same hsame.1 hsame.2.symm (hsame.2 ▸ le_max_left _ _)
  | processSnapshot nowMs => exact processSnapshot_accounted hb nowMs bound
  | processPending account clock =>
      exact processPending_accounted hb account clock (hsend account clock rfl)
  | processClosing account nowMs => exact eachOpen_accounted (closing_sound account nowMs) hb bound
  | processFinalizing nowMs => exact eachOpen_accounted (finalizing_sound nowMs) hb bound
  | finalizeAll account nowMs => exact finalizeAllTrades_accounted hb account nowMs bound
  | priceUpdate batches => exact eachOpen_accounted (priced_sound batches) hb bound
  | disconnectRequest account nowMs =>
      simp only [step, onDisconnectRequest]
      split
      · have h := finalizeAllTrades_accounted (s := { s with openTradesSnapshotReady := false })
          ⟨hb.counter, hb.sorted, hb.split, hb.unknown_nonneg⟩ account nowMs bound
        exact ⟨h.balanced, h.published, h.bounded⟩
      · exact finalizeAllTrades_accounted hb account nowMs bound
  | openTradesSnapshot event => exact onOpenTradesSnapshot_accounted hb event haccept
  | snapshotAvailability ready => exact onSnapshotAvailability_accounted hb ready bound
  | broker ref write =>
      refine .of_same ⟨?_, hb.sorted, hb.split, hb.unknown_nonneg⟩ rfl (le_max_left _ _)
      exact hb.counter.trans (congrArg Nat.cast (List.length_map _).symm)

theorem Balanced.step {s : TradeQueueManager F} (hb : Balanced s) (e : Event F) :
    Balanced (s.step e).1 :=
  (step_accounted hb e (max (s.currentOpenTrades + 1) ((acceptedBy s e).getD 0))
    (fun n hn => by rw [hn]; exact le_max_right _ _)
    (fun _ _ _ _ _ => lt_of_lt_of_le (Int.lt_succ _) (le_max_left _ _))).balanced

/-- After an accepted snapshot the count is the snapshot's. -/
theorem accepted_count {s : TradeQueueManager F} (hb : Balanced s) {e : Event F} {c : Int}
    (h : acceptedBy s e = some c) : (s.step e).1.currentOpenTrades = c := by
  cases e with
  | openTradesSnapshot event =>
      simp only [acceptedBy] at h
      split at h
      · rename_i hacc
        obtain rfl := Option.some.inj h
        have hidle : s.localOpenTrades = 0 := by
          simp only [acceptsSnapshot, Bool.not_eq_true', Bool.or_eq_false_iff, decide_eq_false_iff_not,
            not_lt] at hacc
          have := hb.counter
          omega
        have hcount : (s.onOpenTradesSnapshot event).1.currentOpenTrades =
            s.localOpenTrades + max 0 event.openTrades := by
          unfold onOpenTradesSnapshot
          dsimp only
          split
          · rename_i hrefused
            rw [Bool.not_eq_true'] at hrefused
            exact Bool.noConfusion (hrefused.symm.trans hacc)
          · exact announce_count _ _ _
        rw [hidle, Int.zero_add] at hcount
        exact hcount
      · cases h
  | _ => cases h

/-- A broker request is sent only under the account's own limit. -/
theorem tradeRequest_under_limit {s : TradeQueueManager F} {e : Event F} {ref : Nat}
    (h : Notice.tradeRequest ref ∈ (s.step e).2) : ∃ account clock request,
      e = .processPending account clock ∧ account.openTrades request < account.maxTrades request := by
  have hpass : ∀ {handle : TradeQueueManager F → Transaction F → Handled F}, SendsNothing handle →
      ∀ s' : TradeQueueManager F, Notice.tradeRequest ref ∉ (s'.eachOpen handle).2 := by
    intro handle hs s' hm
    obtain ⟨t, _, s'', hn⟩ := each_notices s' hm
    exact hs s'' t ref hn
  have hfinal : ∀ s' : TradeQueueManager F, ∀ account nowMs,
      Notice.tradeRequest ref ∉ (s'.finalizeAllTrades account nowMs).2 := by
    intro s' account nowMs hm
    obtain ⟨_, _, _, _, emitted, h3, hem⟩ := s'.finalizeAllTrades_spec account nowMs
    rw [h3] at hm
    rcases List.mem_append.mp hm with hm | hm
    · rcases List.mem_append.mp hm with hm | hm
      · obtain ⟨t, _, ht⟩ := List.mem_map.mp hm
        cases ht
      · exact hpass (forceClose_sends_nothing account nowMs) _ hm
    · have := (hem _ hm).1
      cases this
  have huntouched : ∀ {s' : TradeQueueManager F} {ns : List (Notice F)}, Untouched s s' ns →
      Notice.tradeRequest ref ∉ ns := by
    intro s' ns hu hm
    have := (hu.notices _ hm).1
    cases this
  cases e with
  | addTrade account call nowMs => cases h
  | processSnapshot nowMs => exact (huntouched (s.processSnapshot_untouched nowMs) h).elim
  | processPending account clock =>
      simp only [step] at h
      rcases s.processPending_cases account clock with he | ⟨t, _, _, hlt, _⟩
      · rw [he] at h
        cases h
      · exact ⟨account, clock, t.request, rfl, hlt⟩
  | processClosing account nowMs => exact (hpass (closing_sends_nothing account nowMs) s h).elim
  | processFinalizing nowMs => exact (hpass (finalizing_sends_nothing nowMs) s h).elim
  | finalizeAll account nowMs => exact (hfinal s account nowMs h).elim
  | priceUpdate batches => exact (hpass (priced_sends_nothing batches) s h).elim
  | disconnectRequest account nowMs =>
      simp only [step, onDisconnectRequest] at h
      split at h <;> exact (hfinal _ account nowMs h).elim
  | openTradesSnapshot event => exact (huntouched (s.onOpenTradesSnapshot_untouched event) h).elim
  | snapshotAvailability ready => cases h
  | broker ref write => cases h

/-! ## A run whose account echoes the published count -/

/-- The account information of every pending pass: the open trades are the count last published, and the limit
is `limit`. -/
def Echoes (limit : Int) (s : TradeQueueManager F) (published : Int) : List (Event F) → Prop
  | [] => True
  | e :: es =>
      (∀ account clock, e = .processPending account clock → ∀ request,
        account.openTrades request = published ∧ account.maxTrades request = limit) ∧
      Echoes limit (s.step e).1 (lastEmitted published (s.step e).2) es

/-- The count of the last accepted broker snapshot, `n` before the run. -/
def lastAccepted (n : Int) (ts : List (QueueStep F)) : Int :=
  (ts.filterMap (fun t => acceptedBy t.before t.event)).getLast?.getD n

theorem lastAccepted_cons (n : Int) (s : TradeQueueManager F) (e : Event F) (ts : List (QueueStep F)) :
    lastAccepted n (Lib.Run.stepOf TradeQueueManager.step s e :: ts) =
      lastAccepted ((acceptedBy s e).getD n) ts := by
  simp only [lastAccepted, List.filterMap_cons, Lib.Run.stepOf_before, Lib.Run.stepOf_event]
  cases acceptedBy s e with
  | none => rfl
  | some c => exact getLast?_getD_append [c] _ n

/-- With an account that echoes the published count, a step sends under the limit and keeps the count under the
limit or the last accepted snapshot, whichever is higher. -/
theorem echoed_step {limit published accepted : Int} {s : TradeQueueManager F} (hb : Balanced s)
    (hpub : s.currentOpenTrades ≤ published) (hle : s.currentOpenTrades ≤ max limit accepted)
    {e : Event F} (he : ∀ account clock, e = .processPending account clock → ∀ request,
      account.openTrades request = published ∧ account.maxTrades request = limit) :
    (s.step e).1.currentOpenTrades ≤ lastEmitted published (s.step e).2 ∧
      (s.step e).1.currentOpenTrades ≤ max limit ((acceptedBy s e).getD accepted) ∧
      ∀ ref, Notice.tradeRequest ref ∈ (s.step e).2 → s.currentOpenTrades < limit := by
  have hsend : ∀ account clock, e = .processPending account clock → ∀ request,
      account.openTrades request < account.maxTrades request → s.currentOpenTrades < limit := by
    intro account clock hp request hlt
    obtain ⟨h1, h2⟩ := he account clock hp request
    omega
  refine ⟨?_, ?_, fun ref hr => ?_⟩
  · have h := step_accounted hb e (max limit ((acceptedBy s e).getD 0))
      (fun n hn => by rw [hn]; exact le_max_right _ _)
      (fun a c hp r hlt => lt_of_lt_of_le (hsend a c hp r hlt) (le_max_left _ _))
    exact le_trans h.published (lastEmitted_mono hpub _)
  · cases hacc : acceptedBy s e with
    | none =>
        have h := step_accounted hb e limit (fun n hn => by rw [hacc] at hn; cases hn) hsend
        exact le_trans h.bounded (max_le hle (le_max_left _ _))
    | some c =>
        -- an accepted snapshot replaces the count, whatever it was
        rw [accepted_count hb hacc]
        exact le_max_right _ _
  · obtain ⟨account, clock, request, hp, hlt⟩ := tradeRequest_under_limit hr
    exact hsend account clock hp request hlt

end TradeQueueManager

end OptionX.TradeExecution
