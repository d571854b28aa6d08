import OptionX.Lib.Run
import OptionX.TradeExecution.Lemmas.Passes

/-!
# No transaction is lost or duplicated

Every accepted transaction is pending, open, has had its end reported, or has expired in the pending list, and
exactly one of these. One step moves it from one of these places to another.
-/

namespace OptionX.TradeExecution

namespace TradeQueueManager

variable {F : Type}

/-- How often a transaction is in the pending or the open list. -/
def present (s : TradeQueueManager F) (r : Nat) : Nat :=
  (refs s.pendingTransactions).count r + (refs s.openTransactions).count r

/-- The transactions that a step drops from the pending list because they have waited too long. -/
def expiredBy (s : TradeQueueManager F) : Event F → List Nat
  | .processPending account clock => refs (s.pendingTransactions.filter (expired account clock.nowMs))
  | _ => []

/-! ## Passes over the open transactions -/

section EachOpen

variable {handle : TradeQueueManager F → Transaction F → Handled F} (h : Sound handle)
  (s : TradeQueueManager F)

theorem eachOpen_fst : (s.eachOpen handle).1 =
    { (s.each handle s.openTransactions).1 with
      openTransactions := (s.each handle s.openTransactions).2.1 } := rfl

theorem eachOpen_snd : (s.eachOpen handle).2 = (s.each handle s.openTransactions).2.2 := rfl

include h

theorem eachOpen_pending : (s.eachOpen handle).1.pendingTransactions = s.pendingTransactions :=
  (h.each_framed s _).pending

theorem eachOpen_nextRef : (s.eachOpen handle).1.nextRef = s.nextRef := (h.each_framed s _).nextRef

theorem eachOpen_conserves (r : Nat) :
    present (s.eachOpen handle).1 r + terminated (s.eachOpen handle).2 r = present s r := by
  have hc := h.each_conserves s s.openTransactions r
  simp only [present, eachOpen_pending h]
  simp only [eachOpen_fst, eachOpen_snd]
  omega

theorem eachOpen_about {n : Notice F} (hn : n ∈ (s.eachOpen handle).2) {r : Nat}
    (hr : n.about = some r) : r ∈ refs s.openTransactions := by
  obtain ⟨t, ht, hnt⟩ := h.each_about s hn
  rw [hnt, Option.some.injEq] at hr
  exact hr ▸ List.mem_map_of_mem ht

end EachOpen

/-! ## The pending pass -/

section Pending

variable [Zero F] [Add F]

theorem nextOpenBalance_fields (s : TradeQueueManager F) (nowMs : Int) (b : F) :
    (s.nextOpenBalance nowMs b).1.pendingTransactions = s.pendingTransactions ∧
      (s.nextOpenBalance nowMs b).1.openTransactions = s.openTransactions ∧
      (s.nextOpenBalance nowMs b).1.nextRef = s.nextRef ∧
      (s.nextOpenBalance nowMs b).1.localOpenTrades = s.localOpenTrades ∧
      (s.nextOpenBalance nowMs b).1.snapshotOpenTrades = s.snapshotOpenTrades ∧
      (s.nextOpenBalance nowMs b).1.snapshotUnknownCloseTrades = s.snapshotUnknownCloseTrades ∧
      (s.nextOpenBalance nowMs b).1.snapshotCloseDueTimesMs = s.snapshotCloseDueTimesMs := by
  unfold nextOpenBalance
  dsimp only
  split <;> exact ⟨rfl, rfl, rfl, rfl, rfl, rfl, rfl⟩

/-- A sent order is open, counted and announced, with nothing terminal said. -/
theorem sendOrder_spec (s : TradeQueueManager F) (account : AccountInfo F) (clock : Clock)
    (t : Transaction F) :
    ∃ t' : Transaction F, t'.ref = t.ref ∧ isTerminalState t'.result.tradeState = false ∧
      (s.sendOrder account clock t).1.pendingTransactions = s.pendingTransactions ∧
      (s.sendOrder account clock t).1.openTransactions = s.openTransactions ++ [t'] ∧
      (s.sendOrder account clock t).1.nextRef = s.nextRef ∧
      (s.sendOrder account clock t).1.localOpenTrades = s.localOpenTrades + 1 ∧
      (s.sendOrder account clock t).1.snapshotOpenTrades = s.snapshotOpenTrades ∧
      (s.sendOrder account clock t).1.snapshotUnknownCloseTrades = s.snapshotUnknownCloseTrades ∧
      (s.sendOrder account clock t).1.snapshotCloseDueTimesMs = s.snapshotCloseDueTimesMs ∧
      (s.sendOrder account clock t).2 = [.openTrades (s.currentOpenTrades + 1) (some t.ref),
        .trade t', .tradeRequest t.ref] := by
  obtain ⟨h1, h2, h3, h4, h5, h6, h7⟩ :=
    s.nextOpenBalance_fields clock.nowMs (account.balance t.request 0)
  refine ⟨sent account clock (s.nextOpenBalance clock.nowMs (account.balance t.request 0)).2 t, rfl, rfl,
    h1, ?_, h3, ?_, h5, h6, h7, ?_⟩
  · simp only [sendOrder, incrementOpenTrades, h2]
  · simp only [sendOrder, incrementOpenTrades, h4]
  · have hc : s.localOpenTrades + 1 + s.snapshotOpenTrades = s.currentOpenTrades + 1 := by
      simp only [currentOpenTrades]
      omega
    simp only [sendOrder, incrementOpenTrades, emitOpenTrades, currentOpenTrades, h4, h5, hc,
      List.cons_append, List.nil_append]
    rfl

/-- The pending pass drops the expired transactions, then sends, refuses or keeps the first of the rest. -/
theorem processPending_cases (s : TradeQueueManager F) (account : AccountInfo F) (clock : Clock) :
    let waiting := s.pendingTransactions.filter (fun t => !expired account clock.nowMs t)
    (s.processPendingTransactions account clock =
        ({ s with pendingTransactions := waiting }, [])) ∨
      (∃ t rest, waiting = t :: rest ∧
        account.openTrades t.request < account.maxTrades t.request ∧
        ((∃ t₀ : Transaction F, t₀.ref = t.ref ∧ s.processPendingTransactions account clock =
          { s with pendingTransactions := rest }.sendOrder account clock t₀) ∨
        ∃ u : Transaction F, u.ref = t.ref ∧ isTerminalState u.result.tradeState = true ∧
          s.processPendingTransactions account clock =
            ({ s with pendingTransactions := rest }, [.trade u]))) := by
  intro waiting
  unfold processPendingTransactions
  split
  · rename_i he
    rw [List.isEmpty_iff] at he
    refine Or.inl ?_
    have hw : waiting = [] := by simp [waiting, he]
    rw [hw]
    obtain ⟨_, _, _, _, _, _, _, _, _, _, _, _, _, _, _, _⟩ := s
    simp only at he
    rw [he]
  · dsimp only
    cases hp : popNextTransaction { s with pendingTransactions := waiting } account clock.steadyMs with
    | none => exact Or.inl (by simp [waiting, handleCanceledTransactions])
    | some tr =>
        obtain ⟨t, rest⟩ := tr
        have hw : waiting = t :: rest ∧
            account.openTrades t.request < account.maxTrades t.request := by
          unfold popNextTransaction at hp
          split at hp
          · cases hp
          · split at hp
            · cases hp
            · rename_i x xs hxs
              split at hp
              · split at hp
                · rename_i hlt
                  obtain ⟨rfl, rfl⟩ := Prod.mk.inj (Option.some.inj hp)
                  exact ⟨hxs, hlt⟩
                · cases hp
              · cases hp
        refine Or.inr ⟨t, rest, hw.1, hw.2, ?_⟩
        dsimp only [handleCanceledTransactions]
        split
        · refine Or.inl ⟨{ t with result := { t.result with
            errorCode := validateRequest account t.request clock.nowMs } }, rfl, ?_⟩
          rw [List.append_nil]
        · exact Or.inr ⟨finalizeTransactionWithError account { t with result := { t.result with
            errorCode := validateRequest account t.request clock.nowMs } }
            (validateRequest account t.request clock.nowMs) .openError clock.nowMs, rfl, rfl, rfl⟩

theorem processPending_conserves (s : TradeQueueManager F) (account : AccountInfo F) (clock : Clock)
    (r : Nat) :
    present (s.processPendingTransactions account clock).1 r +
        terminated (s.processPendingTransactions account clock).2 r +
        (expiredBy s (.processPending account clock)).count r = present s r ∧
      (s.processPendingTransactions account clock).1.nextRef = s.nextRef := by
  have hsplit := count_refs_filter (expired account clock.nowMs) s.pendingTransactions r
  simp only [present, expiredBy]
  rcases s.processPending_cases account clock with he | ⟨t, rest, hw, _, ⟨t₀, ht, he⟩ | ⟨u, hu, hut, he⟩⟩
  · rw [he]
    refine ⟨?_, rfl⟩
    simp only [terminated_nil]
    omega
  · obtain ⟨t', ht', hnt, h1, h2, h3, _, _, _, _, hns⟩ :=
      sendOrder_spec { s with pendingTransactions := rest } account clock t₀
    rw [he]
    refine ⟨?_, h3⟩
    rw [h1, h2, hns, terminated_of_none]
    · simp only [hw] at hsplit
      have hc : (refs (t :: rest)).count r = (refs rest).count r + (refs [t']).count r := by
        simp [refs, ht', ht, List.count_cons]
      simp only [refs_append, List.count_append]
      omega
    · intro n hn
      simp only [List.mem_cons, List.not_mem_nil, or_false] at hn
      rcases hn with rfl | rfl | rfl
      · rfl
      · exact trade_not_ends hnt
      · rfl
  · rw [he]
    refine ⟨?_, rfl⟩
    simp only [hw] at hsplit
    have hc : (refs (t :: rest)).count r = (refs rest).count r + (refs [u]).count r := by
      simp [refs, hu, List.count_cons]
    rw [terminated_trade hut]
    simp only
    omega

/-- The pending pass speaks of pending transactions only. -/
theorem processPending_about (s : TradeQueueManager F) (account : AccountInfo F) (clock : Clock)
    {n : Notice F} (hn : n ∈ (s.processPendingTransactions account clock).2) {r : Nat}
    (hr : n.about = some r) : r ∈ refs s.pendingTransactions := by
  rcases s.processPending_cases account clock with he | ⟨t, rest, hw, _, ⟨t₀, ht, he⟩ | ⟨u, hu, _, he⟩⟩
  · rw [he] at hn
    cases hn
  all_goals
    have hmem : t ∈ s.pendingTransactions := List.mem_of_mem_filter (hw ▸ List.mem_cons_self)
  · obtain ⟨t', ht', _, _, _, _, _, _, _, _, hns⟩ :=
      sendOrder_spec { s with pendingTransactions := rest } account clock t₀
    rw [he, hns] at hn
    have : r = t.ref := by
      simp only [List.mem_cons, List.not_mem_nil, or_false] at hn
      rcases hn with rfl | rfl | rfl <;> simp only [Notice.about, Option.some.injEq] at hr <;>
        rw [← hr] <;> first | exact ht | exact ht'.trans ht
    exact this ▸ List.mem_map_of_mem hmem
  · rw [he, List.mem_singleton] at hn
    subst hn
    obtain rfl := Option.some.inj hr
    exact hu ▸ List.mem_map_of_mem hmem

/-- The pending pass may add to the open transactions and leaves those that are there alone. -/
theorem processPending_open (s : TradeQueueManager F) (account : AccountInfo F) (clock : Clock)
    {x : Transaction F} (hx : x ∈ s.openTransactions) :
    x ∈ (s.processPendingTransactions account clock).1.openTransactions := by
  rcases s.processPending_cases account clock with he | ⟨t, rest, _, _, ⟨t₀, _, he⟩ | ⟨u, _, _, he⟩⟩
  · rw [he]
    exact hx
  · obtain ⟨t', _, _, _, ho, _⟩ :=
      sendOrder_spec { s with pendingTransactions := rest } account clock t₀
    rw [he, ho]
    exact List.mem_append_left _ hx
  · rw [he]
    exact hx

end Pending

/-! ## The other steps -/

theorem addTrade_cases [Zero F] (s : TradeQueueManager F) (account : AccountInfo F) (call : AddTrade F)
    (nowMs : Int) : (s.addTrade account call nowMs).1 = s ∨
      ∃ t : Transaction F, t.ref = s.nextRef ∧ (s.addTrade account call nowMs).1 =
        { s with pendingTransactions := s.pendingTransactions ++ [t], nextRef := s.nextRef + 1 } := by
  unfold addTrade
  split
  · exact Or.inl rfl
  · dsimp only
    split
    · exact Or.inl rfl
    · exact Or.inr ⟨_, rfl, rfl⟩

theorem requestSnapshotRefresh_spec (s : TradeQueueManager F) (reason : String) :
    (s.requestSnapshotRefresh reason).1 =
        { s with snapshotRefreshRequested := true } ∧
      ∀ n ∈ (s.requestSnapshotRefresh reason).2, n.about = none ∧ n.ends = none ∧ n.count? = none := by
  unfold requestSnapshotRefresh
  split
  · rename_i h
    refine ⟨?_, by simp⟩
    rw [← h]
  · exact ⟨rfl, by simp [Notice.about, Notice.ends, Notice.count?]⟩

/-- The snapshot pass and the snapshot events leave the transactions alone. -/
structure Untouched (s s' : TradeQueueManager F) (ns : List (Notice F)) : Prop where
  pending : s'.pendingTransactions = s.pendingTransactions
  open_ : s'.openTransactions = s.openTransactions
  nextRef : s'.nextRef = s.nextRef
  counter : s'.localOpenTrades = s.localOpenTrades
  notices : ∀ n ∈ ns, n.about = none ∧ n.ends = none

theorem Untouched.refresh {s s' : TradeQueueManager F} {ns : List (Notice F)} (h : Untouched s s' ns)
    (reason : String) : Untouched s (s'.requestSnapshotRefresh reason).1
      (ns ++ (s'.requestSnapshotRefresh reason).2) := by
  obtain ⟨he, hn⟩ := s'.requestSnapshotRefresh_spec reason
  refine ⟨by rw [he]; exact h.pending, by rw [he]; exact h.open_, by rw [he]; exact h.nextRef,
    by rw [he]; exact h.counter, fun n hm => ?_⟩
  rcases List.mem_append.mp hm with hm | hm
  · exact h.notices n hm
  · exact ⟨(hn n hm).1, (hn n hm).2.1⟩

/-- Announcing the new count, and perhaps asking for a fresh snapshot. -/
theorem Untouched.announce {s s' : TradeQueueManager F} (h : Untouched s s' []) (c : Prop) [Decidable c]
    (reason : String) :
    Untouched s
      (if c then ((s'.requestSnapshotRefresh reason).1,
        s'.emitOpenTrades none :: (s'.requestSnapshotRefresh reason).2)
      else (s', [s'.emitOpenTrades none])).1
      (if c then ((s'.requestSnapshotRefresh reason).1,
        s'.emitOpenTrades none :: (s'.requestSnapshotRefresh reason).2)
      else (s', [s'.emitOpenTrades none])).2 := by
  have hemit : Untouched s s' [s'.emitOpenTrades none] :=
    ⟨h.pending, h.open_, h.nextRef, h.counter, by simp [emitOpenTrades, Notice.about, Notice.ends]⟩
  by_cases hc : c
  · simp only [if_pos hc]
    exact hemit.refresh reason
  · simp only [if_neg hc]
    exact hemit

theorem processSnapshot_untouched (s : TradeQueueManager F) (nowMs : Int) :
    Untouched s (s.processSnapshotOpenTrades nowMs).1 (s.processSnapshotOpenTrades nowMs).2 := by
  have hrefl : Untouched s s [] := ⟨rfl, rfl, rfl, rfl, by simp⟩
  unfold processSnapshotOpenTrades
  split
  · exact hrefl
  split
  · split
    · exact hrefl.refresh _
    · exact hrefl
  dsimp only
  split
  · exact hrefl
  refine Untouched.announce ?_ _ _
  exact ⟨rfl, rfl, rfl, rfl, by simp⟩

theorem onOpenTradesSnapshot_untouched (s : TradeQueueManager F) (event : OpenTradesSnapshot) :
    Untouched s (s.onOpenTradesSnapshot event).1 (s.onOpenTradesSnapshot event).2 := by
  have hrefl : Untouched s { s with snapshotRefreshRequested := false } [] :=
    ⟨rfl, rfl, rfl, rfl, by simp⟩
  unfold onOpenTradesSnapshot
  dsimp only
  split
  · exact hrefl.refresh _
  refine Untouched.announce ?_ _ _
  exact ⟨rfl, rfl, rfl, rfl, by simp⟩

theorem onSnapshotAvailability_untouched (s : TradeQueueManager F) (ready : Bool) :
    Untouched s (s.onSnapshotAvailability ready) [] := by
  unfold onSnapshotAvailability
  split
  · exact ⟨rfl, rfl, rfl, rfl, by simp⟩
  · dsimp only
    split <;> exact ⟨rfl, rfl, rfl, rfl, by simp⟩

theorem Untouched.present {s s' : TradeQueueManager F} {ns : List (Notice F)} (h : Untouched s s' ns)
    (r : Nat) : present s' r + terminated ns r = present s r := by
  rw [terminated_of_none (fun n hn => (h.notices n hn).2)]
  simp [TradeQueueManager.present, h.pending, h.open_]

section Finalize

variable [Zero F] [Add F]

/-- The queue that `finalize_all_trades` hands to its loop over the open transactions. -/
theorem finalizeAllTrades_spec (s : TradeQueueManager F) (account : AccountInfo F) (nowMs : Int) :
    let closed := { s with pendingTransactions := [] }.eachOpen (forceClose account nowMs)
    (s.finalizeAllTrades account nowMs).1.pendingTransactions = [] ∧
      (s.finalizeAllTrades account nowMs).1.openTransactions = closed.1.openTransactions ∧
      (s.finalizeAllTrades account nowMs).1.nextRef = s.nextRef ∧
      (s.finalizeAllTrades account nowMs).1.localOpenTrades = closed.1.localOpenTrades ∧
      ∃ emitted, (s.finalizeAllTrades account nowMs).2 =
        s.pendingTransactions.map (fun t => .trade (rejectPending account nowMs t)) ++ closed.2 ++
          emitted ∧ ∀ n ∈ emitted, n.about = none ∧ n.ends = none := by
  intro closed
  have hs := forceClose_sound (F := F) account nowMs
  refine ⟨eachOpen_pending hs _, rfl, eachOpen_nextRef hs _, rfl, _, rfl, fun n hn => ?_⟩
  split at hn
  · rw [List.mem_singleton] at hn
    subst hn
    exact ⟨rfl, rfl⟩
  · cases hn

omit [Zero F] [Add F] in
theorem terminated_rejected (account : AccountInfo F) (nowMs : Int) (ts : List (Transaction F))
    (r : Nat) : terminated (ts.map (fun t => Notice.trade (rejectPending account nowMs t))) r =
      (refs ts).count r := by
  have : (ts.map (fun t => Notice.trade (rejectPending account nowMs t))).filterMap Notice.ends =
      refs ts := by
    rw [List.filterMap_map, refs, ← List.filterMap_eq_map]
    rfl
  rw [terminated, this]

theorem finalizeAllTrades_conserves (s : TradeQueueManager F) (account : AccountInfo F) (nowMs : Int)
    (r : Nat) : present (s.finalizeAllTrades account nowMs).1 r +
      terminated (s.finalizeAllTrades account nowMs).2 r = present s r := by
  obtain ⟨h1, h2, _, _, emitted, h3, hem⟩ := s.finalizeAllTrades_spec account nowMs
  have hc := eachOpen_conserves (forceClose_sound (F := F) account nowMs)
    { s with pendingTransactions := [] } r
  have hp := eachOpen_pending (forceClose_sound (F := F) account nowMs)
    { s with pendingTransactions := [] }
  rw [h3]
  simp only [present, h1, h2, hp, terminated_append, terminated_rejected,
    terminated_of_none (fun n hn => (hem n hn).2)] at hc ⊢
  have h0 : (refs ([] : List (Transaction F))).count r = 0 := rfl
  omega

end Finalize

theorem refs_brokerWrite (s : TradeQueueManager F) (ref : Nat)
    (write : TradeResult F → TradeResult F) :
    refs (s.brokerWrite ref write).openTransactions = refs s.openTransactions := by
  simp only [refs, brokerWrite, List.map_map]
  refine List.map_congr_left (fun t _ => ?_)
  simp only [Function.comp]
  split <;> rfl

/-! ## Every step -/

variable [Zero F] [Add F] [DecidableEq F] [LT F] [DecidableLT F]

/-- One step: a transaction stays, has its end reported, expires, or is accepted. -/
theorem step_conserves (s : TradeQueueManager F) (e : Event F) (r : Nat) :
    present (s.step e).1 r + terminated (s.step e).2 r + (expiredBy s e).count r =
        present s r + (if s.nextRef ≤ r ∧ r < (s.step e).1.nextRef then 1 else 0) ∧
      s.nextRef ≤ (s.step e).1.nextRef := by
  have hsame : ∀ {s' : TradeQueueManager F} {ns : List (Notice F)}, s'.nextRef = s.nextRef →
      present s' r + terminated ns r = present s r →
      present s' r + terminated ns r + ([] : List Nat).count r =
        present s r + (if s.nextRef ≤ r ∧ r < s'.nextRef then 1 else 0) ∧ s.nextRef ≤ s'.nextRef := by
    intro s' ns hn hp
    rw [if_neg (by omega)]
    exact ⟨by simpa using hp, Nat.le_of_eq hn.symm⟩
  cases e with
  | addTrade account call nowMs =>
      rcases s.addTrade_cases account call nowMs with he | ⟨t, ht, he⟩
      · simp only [step, he]
        exact hsame rfl rfl
      · simp only [step, he]
        refine ⟨?_, Nat.le_succ _⟩
        have hc : (refs [t]).count r = if s.nextRef ≤ r ∧ r < s.nextRef + 1 then 1 else 0 := by
          simp only [refs, List.map_cons, List.map_nil, ht, List.count_singleton, beq_iff_eq]
          split <;> split <;> omega
        simp only [present, refs_append, List.count_append, terminated_nil, expiredBy, List.count_nil]
        omega
  | processSnapshot nowMs =>
      have h := s.processSnapshot_untouched nowMs
      exact hsame h.nextRef (h.present r)
  | processPending account clock =>
      obtain ⟨hp, hn⟩ := s.processPending_conserves account clock r
      simp only [step, hn]
      rw [if_neg (by omega)]
      exact ⟨hp, Nat.le_refl _⟩
  | processClosing account nowMs =>
      exact hsame (eachOpen_nextRef (closing_sound account nowMs) s)
        (eachOpen_conserves (closing_sound account nowMs) s r)
  | processFinalizing nowMs =>
      exact hsame (eachOpen_nextRef (finalizing_sound nowMs) s)
        (eachOpen_conserves (finalizing_sound nowMs) s r)
  | finalizeAll account nowMs =>
      exact hsame (s.finalizeAllTrades_spec account nowMs).2.2.1
        (s.finalizeAllTrades_conserves account nowMs r)
  | priceUpdate batches =>
      exact hsame (eachOpen_nextRef (priced_sound batches) s)
        (eachOpen_conserves (priced_sound batches) s r)
  | disconnectRequest account nowMs =>
      simp only [step, onDisconnectRequest]
      split
      · exact hsame (finalizeAllTrades_spec _ account nowMs).2.2.1
          (finalizeAllTrades_conserves { s with openTradesSnapshotReady := false } account nowMs r)
      · exact hsame (s.finalizeAllTrades_spec account nowMs).2.2.1
          (s.finalizeAllTrades_conserves account nowMs r)
  | openTradesSnapshot event =>
      have h := s.onOpenTradesSnapshot_untouched event
      exact hsame h.nextRef (h.present r)
  | snapshotAvailability ready =>
      have h := s.onSnapshotAvailability_untouched ready
      exact hsame h.nextRef (h.present r)
  | broker ref write =>
      refine hsame rfl ?_
      have ho := s.refs_brokerWrite ref write
      simp only [present, step, ho, terminated_nil, Nat.add_zero]
      rfl

/-- A notification is about a transaction that was in the queue. -/
theorem step_about (s : TradeQueueManager F) (e : Event F) {n : Notice F} (hn : n ∈ (s.step e).2)
    {r : Nat} (hr : n.about = some r) :
    r ∈ refs s.pendingTransactions ∨ r ∈ refs s.openTransactions := by
  have hfinal : ∀ s₀ : TradeQueueManager F, s₀.pendingTransactions = s.pendingTransactions →
      s₀.openTransactions = s.openTransactions → ∀ account nowMs,
      n ∈ (s₀.finalizeAllTrades account nowMs).2 →
      r ∈ refs s.pendingTransactions ∨ r ∈ refs s.openTransactions := by
    intro s₀ hp ho account nowMs hn
    obtain ⟨_, _, _, _, emitted, h3, hem⟩ := s₀.finalizeAllTrades_spec account nowMs
    rw [h3] at hn
    rcases List.mem_append.mp hn with hn | hn
    · rcases List.mem_append.mp hn with hn | hn
      · obtain ⟨t, ht, rfl⟩ := List.mem_map.mp hn
        have hrt : t.ref = r := Option.some.inj hr
        exact Or.inl (hp ▸ hrt ▸ List.mem_map_of_mem ht)
      · exact Or.inr (ho ▸ eachOpen_about (forceClose_sound account nowMs) _ hn hr)
    · rw [(hem n hn).1] at hr
      cases hr
  have huntouched : ∀ {s' : TradeQueueManager F} {ns : List (Notice F)}, Untouched s s' ns → n ∈ ns →
      r ∈ refs s.pendingTransactions ∨ r ∈ refs s.openTransactions := by
    intro s' ns h hm
    rw [(h.notices n hm).1] at hr
    cases hr
  cases e with
  | addTrade account call nowMs => cases hn
  | processSnapshot nowMs => exact huntouched (s.processSnapshot_untouched nowMs) hn
  | processPending account clock =>
      exact Or.inl (s.processPending_about account clock hn hr)
  | processClosing account nowMs => exact Or.inr (eachOpen_about (closing_sound account nowMs) s hn hr)
  | processFinalizing nowMs => exact Or.inr (eachOpen_about (finalizing_sound nowMs) s hn hr)
  | finalizeAll account nowMs => exact hfinal s rfl rfl account nowMs hn
  | priceUpdate batches => exact Or.inr (eachOpen_about (priced_sound batches) s hn hr)
  | disconnectRequest account nowMs =>
      simp only [step, onDisconnectRequest] at hn
      split at hn
      · exact hfinal { s with openTradesSnapshotReady := false } rfl rfl account nowMs hn
      · exact hfinal s rfl rfl account nowMs hn
  | openTradesSnapshot event => exact huntouched (s.onOpenTradesSnapshot_untouched event) hn
  | snapshotAvailability ready => cases hn
  | broker ref write => cases hn

/-! ## Every run -/

abbrev QueueStep (F : Type) := Lib.Step (TradeQueueManager F) (Event F) (List (Notice F))

/-- Everything that a run has notified. -/
def notices (ts : List (QueueStep F)) : List (Notice F) := ts.flatMap (·.answer)

/-- The transactions that have expired in a run. -/
def expiredIn (ts : List (QueueStep F)) : List Nat := ts.flatMap (fun t => expiredBy t.before t.event)

/-- Each accepted transaction is in exactly one place. -/
def Conserved (ts : List (QueueStep F)) (s : TradeQueueManager F) : Prop :=
  ∀ r, present s r + terminated (notices ts) r + (expiredIn ts).count r =
    if r < s.nextRef then 1 else 0

theorem Conserved.step {ts : List (QueueStep F)} {s : TradeQueueManager F} (h : Conserved ts s)
    (e : Event F) :
    Conserved (ts ++ [Lib.Run.stepOf TradeQueueManager.step s e]) (s.step e).1 := by
  intro r
  have hr := h r
  obtain ⟨hs, hle⟩ := s.step_conserves e r
  simp only [notices, expiredIn, List.flatMap_append, List.flatMap_cons, List.flatMap_nil,
    List.append_nil, terminated_append, List.count_append, Lib.Run.stepOf_answer,
    Lib.Run.stepOf_before, Lib.Run.stepOf_event] at hr ⊢
  split at hr <;> split at hs <;> split <;> omega

theorem conserved (required : Bool) (es : List (Event F)) :
    Conserved (Lib.Run.trace step (create required) es) (Lib.Run.exec step (create required) es) :=
  Lib.Run.history_induct' (fun _ _ e h => h.step e)
    (fun r => by simp [present, create, notices, expiredIn, refs]) es

/-- A transaction that has left both lists does not come back and is not mentioned again. -/
theorem absent_forever {s : TradeQueueManager F} {r : Nat} (hr : r < s.nextRef)
    (ha : present s r = 0) (es : List (Event F)) :
    present (Lib.Run.exec step s es) r = 0 ∧
      ∀ n ∈ notices (Lib.Run.trace step s es), n.about ≠ some r := by
  induction es generalizing s with
  | nil => exact ⟨ha, by simp [notices]⟩
  | cons e es ih =>
      obtain ⟨hc, hle⟩ := s.step_conserves e r
      rw [if_neg (by omega)] at hc
      obtain ⟨h1, h2⟩ := ih (s := (s.step e).1) (by omega) (by omega)
      refine ⟨h1, fun n hn => ?_⟩
      simp only [notices, Lib.Run.trace_cons, List.flatMap_cons, List.mem_append] at hn
      rcases hn with hn | hn
      · intro hab
        have hmem := s.step_about e hn hab
        simp only [present, Nat.add_eq_zero_iff, List.count_eq_zero] at ha
        rcases hmem with hm | hm
        · exact ha.1 hm
        · exact ha.2 hm
      · exact h2 n hn

end TradeQueueManager

end OptionX.TradeExecution
