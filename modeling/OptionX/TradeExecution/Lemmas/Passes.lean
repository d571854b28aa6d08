import OptionX.TradeExecution.Queue

/-!
# What one transaction costs a pass

Every pass over the open transactions treats them one by one. The facts about one transaction are stated once,
as `Sound`, for the four ways in which a pass treats it, and carried over to the whole pass by induction.
-/

namespace OptionX.TradeExecution

variable {F : Type}

/-! ## Identities and counts -/

def refs (ts : List (Transaction F)) : List Nat := ts.map (·.ref)

/-- The transaction that a notification is about. -/
def Notice.about : Notice F → Option Nat
  | .trade t => some t.ref
  | .openTrades _ ref => ref
  | .tradeRequest ref => some ref
  | .tradeStatus ref => some ref
  | .snapshotRefreshRequest _ => none

/-- The transaction whose end a notification reports. -/
def Notice.ends : Notice F → Option Nat
  | .trade t => if isTerminalState t.result.tradeState then some t.ref else none
  | _ => none

/-- The open-trade count that a notification publishes. -/
def Notice.count? : Notice F → Option Int
  | .openTrades count _ => some count
  | _ => none

/-- How often the end of a transaction is reported. -/
def terminated (ns : List (Notice F)) (r : Nat) : Nat := (ns.filterMap Notice.ends).count r

@[simp] theorem terminated_nil (r : Nat) : terminated ([] : List (Notice F)) r = 0 := rfl

@[simp] theorem terminated_append (ns ns' : List (Notice F)) (r : Nat) :
    terminated (ns ++ ns') r = terminated ns r + terminated ns' r := by
  simp [terminated]

theorem refs_append (ts ts' : List (Transaction F)) : refs (ts ++ ts') = refs ts ++ refs ts' := by
  simp [refs]

theorem terminated_trade {t : Transaction F} (h : isTerminalState t.result.tradeState = true) (r : Nat) :
    terminated [.trade t] r = (refs [t]).count r := by
  simp [terminated, Notice.ends, h, refs]

theorem terminated_of_none {ns : List (Notice F)} (h : ∀ n ∈ ns, n.ends = none) (r : Nat) :
    terminated ns r = 0 := by
  have : ns.filterMap Notice.ends = [] := List.filterMap_eq_nil_iff.mpr h
  simp [terminated, this]

/-- A filter splits the identities of a list. -/
theorem count_refs_filter (p : Transaction F → Bool) (ts : List (Transaction F)) (r : Nat) :
    (refs (ts.filter p)).count r + (refs (ts.filter (fun t => !p t))).count r =
      (refs ts).count r := by
  induction ts with
  | nil => rfl
  | cons t ts ih =>
      simp only [refs] at ih ⊢
      cases hp : p t <;> simp [hp, List.count_cons] <;> omega

namespace TradeQueueManager

/-! ## One transaction -/

/-- A pass over the open transactions touches the local counter and the realized profit only. -/
structure Framed (s s' : TradeQueueManager F) : Prop where
  frame : s' = { s with
    localOpenTrades := s'.localOpenTrades
    tradeStormRealizedProfit := s'.tradeStormRealizedProfit
    lastTradeActivityMs := s'.lastTradeActivityMs }

theorem Framed.refl (s : TradeQueueManager F) : Framed s s := ⟨rfl⟩

theorem Framed.trans {s s' s'' : TradeQueueManager F} (h : Framed s s') (h' : Framed s' s'') :
    Framed s s'' :=
  ⟨by rw [h'.frame, h.frame]⟩

section Fields

variable {s s' : TradeQueueManager F} (h : Framed s s')
include h

theorem Framed.pending : s'.pendingTransactions = s.pendingTransactions := by rw [h.frame]
theorem Framed.nextRef : s'.nextRef = s.nextRef := by rw [h.frame]
theorem Framed.snapshotOpen : s'.snapshotOpenTrades = s.snapshotOpenTrades := by rw [h.frame]
theorem Framed.unknown : s'.snapshotUnknownCloseTrades = s.snapshotUnknownCloseTrades := by
  rw [h.frame]
theorem Framed.due : s'.snapshotCloseDueTimesMs = s.snapshotCloseDueTimesMs := by rw [h.frame]

end Fields

/-- What treating one open transaction does, with enough open trades counted: the transaction stays or its
end is reported, the counter follows, and everything said is about it. -/
structure Sound (handle : TradeQueueManager F → Transaction F → Handled F) : Prop where
  framed : ∀ s t, Framed s (handle s t).queue
  kept : ∀ s t k, k ∈ (handle s t).kept → k.ref = t.ref
  about : ∀ s t, ∀ n ∈ (handle s t).notices, n.about = some t.ref
  conserves : ∀ s t r,
    (refs (handle s t).kept.toList).count r + terminated (handle s t).notices r = (refs [t]).count r
  counter : ∀ s t, 0 < s.localOpenTrades →
    (handle s t).queue.localOpenTrades = s.localOpenTrades - 1 + (handle s t).kept.toList.length
  /-- The last published count is the current one; without one the count has not changed. -/
  published : ∀ s t, ((handle s t).notices.filterMap Notice.count?).getLast?.getD s.currentOpenTrades =
    (handle s t).queue.currentOpenTrades

section Decrement

variable [Add F]

/-- The open-trade counter goes down by one and says so, unless it is zero. -/
theorem decrementOpenTrades_spec (s : TradeQueueManager F) (t : Transaction F) (nowMs : Int) :
    Framed s (s.decrementOpenTrades t nowMs).1 ∧
      (∀ n ∈ (s.decrementOpenTrades t nowMs).2, n.about = some t.ref ∧ n.ends = none) ∧
      (0 < s.localOpenTrades →
        (s.decrementOpenTrades t nowMs).1.localOpenTrades = s.localOpenTrades - 1) ∧
      ((s.decrementOpenTrades t nowMs).2.filterMap Notice.count?).getLast?.getD s.currentOpenTrades =
        (s.decrementOpenTrades t nowMs).1.currentOpenTrades := by
  unfold decrementOpenTrades addRealizedProfitToStorm
  by_cases h : 0 < s.localOpenTrades
  · simp only [h, if_true]
    split <;> refine ⟨⟨rfl⟩, ?_, ?_, ?_⟩ <;>
      simp [emitOpenTrades, Notice.about, Notice.ends, Notice.count?, currentOpenTrades]
  · simp only [h, if_false]
    exact ⟨.refl s, by simp, by simp, by simp⟩

/-- A transaction that leaves the queue with its end reported. -/
theorem left_spec (s : TradeQueueManager F) (t u : Transaction F) (nowMs : Int) (hu : u.ref = t.ref)
    (ht : isTerminalState u.result.tradeState = true) {v : Transaction F} (hv : v.ref = t.ref) :
    let h : Handled F :=
      ⟨(s.decrementOpenTrades v nowMs).1, none, (s.decrementOpenTrades v nowMs).2 ++ [.trade u]⟩
    Framed s h.queue ∧ (∀ n ∈ h.notices, n.about = some t.ref) ∧
      (∀ r, (refs h.kept.toList).count r + terminated h.notices r = (refs [t]).count r) ∧
      (0 < s.localOpenTrades →
        h.queue.localOpenTrades = s.localOpenTrades - 1 + h.kept.toList.length) ∧
      (h.notices.filterMap Notice.count?).getLast?.getD s.currentOpenTrades =
        h.queue.currentOpenTrades := by
  obtain ⟨hf, hn, hc, hp⟩ := s.decrementOpenTrades_spec v nowMs
  refine ⟨hf, fun n hm => ?_, fun r => ?_, fun h0 => by simpa using hc h0, ?_⟩
  · rcases List.mem_append.mp hm with hm | hm
    · rw [(hn n hm).1, hv]
    · rw [List.mem_singleton] at hm
      simp [hm, Notice.about, hu]
  · have h0 := terminated_of_none (fun n hm => (hn n hm).2) r
    simp [h0, terminated_trade ht, refs, hu]
  · simpa [Notice.count?] using hp

end Decrement

/-- A transaction that stays open, with nothing terminal said about it. -/
theorem stays_spec (s : TradeQueueManager F) (t u : Transaction F) (ns : List (Notice F))
    (hu : u.ref = t.ref)
    (hn : ∀ n ∈ ns, n.about = some t.ref ∧ n.ends = none ∧ n.count? = none) :
    let h : Handled F := ⟨s, some u, ns⟩
    Framed s h.queue ∧ (∀ n ∈ h.notices, n.about = some t.ref) ∧
      (∀ r, (refs h.kept.toList).count r + terminated h.notices r = (refs [t]).count r) ∧
      (0 < s.localOpenTrades →
        h.queue.localOpenTrades = s.localOpenTrades - 1 + h.kept.toList.length) ∧
      (h.notices.filterMap Notice.count?).getLast?.getD s.currentOpenTrades =
        h.queue.currentOpenTrades := by
  refine ⟨.refl s, fun n hm => (hn n hm).1, fun r => ?_, fun _ => by simp, ?_⟩
  · simp [terminated_of_none (fun n hm => (hn n hm).2.1) r, refs, hu]
  · have : ns.filterMap Notice.count? = [] :=
      List.filterMap_eq_nil_iff.mpr (fun n hm => (hn n hm).2.2)
    simp [this]

/-- `Sound` from the facts that `left_spec` and `stays_spec` give. -/
theorem Sound.of_specs {handle : TradeQueueManager F → Transaction F → Handled F}
    (hk : ∀ s t k, k ∈ (handle s t).kept → k.ref = t.ref)
    (h : ∀ s t, Framed s (handle s t).queue ∧ (∀ n ∈ (handle s t).notices, n.about = some t.ref) ∧
      (∀ r, (refs (handle s t).kept.toList).count r + terminated (handle s t).notices r =
        (refs [t]).count r) ∧
      (0 < s.localOpenTrades → (handle s t).queue.localOpenTrades =
        s.localOpenTrades - 1 + (handle s t).kept.toList.length) ∧
      ((handle s t).notices.filterMap Notice.count?).getLast?.getD s.currentOpenTrades =
        (handle s t).queue.currentOpenTrades) : Sound handle :=
  ⟨fun s t => (h s t).1, hk, fun s t => (h s t).2.1, fun s t => (h s t).2.2.1,
    fun s t => (h s t).2.2.2.1, fun s t => (h s t).2.2.2.2⟩

theorem trade_not_ends {t : Transaction F} (h : isTerminalState t.result.tradeState = false) :
    (Notice.trade t).ends = none := by
  simp [Notice.ends, h]

section Handles

variable [Add F] (account : AccountInfo F) (nowMs : Int)

/-- What the closing pass does with a transaction. -/
theorem closing_cases (s : TradeQueueManager F) (t : Transaction F) :
    (∃ u ns, closing account nowMs s t = ⟨s, some u, ns⟩ ∧ u.ref = t.ref ∧
      (∀ n ∈ ns, n.about = some t.ref ∧ n.ends = none ∧ n.count? = none) ∧
      (isTerminalState t.result.tradeState = true → u = t ∧ ns = [])) ∨
    (∃ u v, u.ref = t.ref ∧ v.ref = t.ref ∧ isTerminalState u.result.tradeState = true ∧
      isTerminalState t.result.tradeState = false ∧
      closing account nowMs s t = ⟨(s.decrementOpenTrades v nowMs).1, none,
        (s.decrementOpenTrades v nowMs).2 ++ [.trade u]⟩) := by
  unfold closing
  split
  · rename_i ho
    rw [beq_iff_eq] at ho
    have hnt : isTerminalState t.result.tradeState = false := by rw [ho]; rfl
    refine Or.inl ⟨_, _, rfl, rfl, ?_, fun h => by rw [hnt] at h; cases h⟩
    intro n hm
    rw [List.mem_singleton] at hm
    subst hm
    exact ⟨rfl, trade_not_ends hnt, rfl⟩
  split
  · exact Or.inl ⟨t, [], rfl, rfl, by simp, fun _ => ⟨rfl, rfl⟩⟩
  rename_i hno hcl
  have hnt : isTerminalState t.result.tradeState = false := by
    cases hs : t.result.tradeState <;> simp [hs, isClosableState] at hcl <;> rfl
  dsimp only
  split
  · refine Or.inr ⟨_, _, ?_, ?_, ?_, hnt, rfl⟩ <;> rfl
  split
  · exact Or.inl ⟨t, [], rfl, rfl, by simp, fun _ => ⟨rfl, rfl⟩⟩
  split
  · refine Or.inr ⟨_, _, ?_, ?_, ?_, hnt, rfl⟩ <;> rfl
  split
  · refine Or.inl ⟨_, _, rfl, rfl, ?_, fun h => by rw [hnt] at h; cases h⟩
    intro n hm
    simp only [List.mem_cons, List.not_mem_nil, or_false] at hm
    rcases hm with rfl | rfl
    · exact ⟨rfl, trade_not_ends rfl, rfl⟩
    · exact ⟨rfl, rfl, rfl⟩
  · exact Or.inl ⟨t, [], rfl, rfl, by simp, fun _ => ⟨rfl, rfl⟩⟩

theorem closing_sound : Sound (closing (F := F) account nowMs) := by
  refine .of_specs (fun s t k hk => ?_) (fun s t => ?_)
  · rcases closing_cases account nowMs s t with ⟨u, ns, he, hu, _⟩ | ⟨u, v, _, _, _, _, he⟩
    · rw [he] at hk
      obtain rfl := Option.some.inj hk
      exact hu
    · rw [he] at hk
      cases hk
  · rcases closing_cases account nowMs s t with ⟨u, ns, he, hu, hn, _⟩ | ⟨u, v, hu, hv, ht, _, he⟩
    · rw [he]
      exact stays_spec s t u ns hu hn
    · rw [he]
      exact left_spec s t u nowMs hu ht hv

theorem finalizing_sound : Sound (finalizing (F := F) nowMs) := by
  refine .of_specs (fun s t k hk => ?_) (fun s t => ?_)
  · unfold finalizing at hk
    split at hk
    · cases hk
    · obtain rfl := Option.some.inj hk
      rfl
  · unfold finalizing
    split
    · rename_i ht
      exact left_spec s t t.cancelAsyncOperations nowMs rfl ht rfl
    · exact stays_spec s t t [] rfl (by simp)

theorem forceClose_sound : Sound (forceClose (F := F) account nowMs) := by
  refine .of_specs (fun s t k hk => by cases hk) (fun s t => ?_)
  exact left_spec s t (finalizeTransactionWithError account t.cancelAsyncOperations .clientForcedClose
    .checkError nowMs) nowMs rfl rfl rfl

end Handles

/-- What a price update does with a transaction. -/
theorem priced_cases [Zero F] [DecidableEq F] [LT F] [DecidableLT F]
    (batches : String → Option (List (Quote F))) (s : TradeQueueManager F) (t : Transaction F) :
    ∃ u ns, priced batches s t = ⟨s, some u, ns⟩ ∧ u.ref = t.ref ∧
      (∀ n ∈ ns, n.about = some t.ref ∧ n.ends = none ∧ n.count? = none) ∧
      (isTerminalState t.result.tradeState = true → u = t ∧ ns = []) := by
  unfold priced
  split
  · exact ⟨t, [], rfl, rfl, by simp, fun _ => ⟨rfl, rfl⟩⟩
  rename_i hs
  simp only [Bool.and_eq_true, bne_iff_ne, ne_eq, not_and, not_not] at hs
  have hnt : isTerminalState t.result.tradeState = false := by
    by_cases ho : t.result.tradeState = .openSuccess
    · rw [ho]; rfl
    · rw [hs ho]; rfl
  dsimp only
  generalize hop : (if t.result.tradeState == .openSuccess then [Notice.trade t] else []) = opened
  generalize hu : (if t.result.tradeState == .openSuccess then
    { t with result := t.result.setState .inProgress } else t) = u
  have hopened : ∀ n ∈ opened, n.about = some t.ref ∧ n.ends = none ∧ n.count? = none := by
    intro n hm
    rw [← hop] at hm
    split at hm
    · rw [List.mem_singleton] at hm
      subst hm
      exact ⟨rfl, trade_not_ends hnt, rfl⟩
    · cases hm
  have huref : u.ref = t.ref := by
    rw [← hu]
    split <;> rfl
  have hust : u.result.tradeState = .inProgress := by
    rw [← hu]
    split
    · rfl
    · rename_i ho
      exact hs (by simpa using ho)
  have hfalse : isTerminalState t.result.tradeState = true → False := by
    rw [hnt]
    simp
  split
  · exact ⟨u, opened, rfl, huref, hopened, fun h => (hfalse h).elim⟩
  split
  · exact ⟨u, opened, rfl, huref, hopened, fun h => (hfalse h).elim⟩
  · refine ⟨_, _, rfl, huref, fun n hm => ?_, fun h => (hfalse h).elim⟩
    rcases List.mem_append.mp hm with hm | hm
    · exact hopened n hm
    · rw [List.mem_singleton] at hm
      subst hm
      refine ⟨congrArg some huref, trade_not_ends ?_, rfl⟩
      have : isTerminalState u.result.tradeState = false := by rw [hust]; rfl
      exact this

theorem priced_sound [Zero F] [DecidableEq F] [LT F] [DecidableLT F]
    (batches : String → Option (List (Quote F))) : Sound (priced batches) := by
  refine .of_specs (fun s t k hk => ?_) (fun s t => ?_)
  · obtain ⟨u, ns, he, hu, _⟩ := priced_cases batches s t
    rw [he] at hk
    obtain rfl := Option.some.inj hk
    exact hu
  · obtain ⟨u, ns, he, hu, hn, _⟩ := priced_cases batches s t
    rw [he]
    exact stays_spec s t u ns hu hn

/-- A handle that asks the broker to open nothing. -/
def SendsNothing (handle : TradeQueueManager F → Transaction F → Handled F) : Prop :=
  ∀ s t ref, Notice.tradeRequest ref ∉ (handle s t).notices

section SendsNothing

variable [Add F]

theorem decrementOpenTrades_sends_nothing (s : TradeQueueManager F) (t : Transaction F) (nowMs : Int)
    (ref : Nat) : Notice.tradeRequest ref ∉ (s.decrementOpenTrades t nowMs).2 := by
  unfold decrementOpenTrades
  split <;> simp [emitOpenTrades]

theorem closing_sends_nothing (account : AccountInfo F) (nowMs : Int) :
    SendsNothing (closing (F := F) account nowMs) := by
  intro s t ref
  have hend : ∀ u : Transaction F, Notice.tradeRequest ref ∉ (s.handleClosingError account u nowMs).notices :=
    fun u => by simp [handleClosingError, decrementOpenTrades_sends_nothing]
  unfold closing
  split
  · simp
  split
  · simp
  dsimp only
  split
  · exact hend _
  split
  · simp
  split
  · exact hend _
  split <;> simp

theorem finalizing_sends_nothing (nowMs : Int) : SendsNothing (finalizing (F := F) nowMs) := by
  intro s t ref
  unfold finalizing
  split <;> simp [decrementOpenTrades_sends_nothing]

theorem forceClose_sends_nothing (account : AccountInfo F) (nowMs : Int) :
    SendsNothing (forceClose (F := F) account nowMs) := by
  intro s t ref
  simp [forceClose, decrementOpenTrades_sends_nothing]

end SendsNothing

theorem priced_sends_nothing [Zero F] [DecidableEq F] [LT F] [DecidableLT F]
    (batches : String → Option (List (Quote F))) : SendsNothing (priced batches) := by
  intro s t ref
  unfold priced
  split
  · simp
  dsimp only
  generalize hop : (if t.result.tradeState == .openSuccess then [Notice.trade t] else []) = opened
  have hopened : Notice.tradeRequest ref ∉ opened := by
    rw [← hop]
    split <;> simp
  split
  · exact hopened
  split
  · exact hopened
  · simp [hopened]

/-! ## The whole pass -/

section Pass

variable {handle : TradeQueueManager F → Transaction F → Handled F}

theorem each_cons (handle : TradeQueueManager F → Transaction F → Handled F) (s : TradeQueueManager F)
    (t : Transaction F) (ts : List (Transaction F)) :
    s.each handle (t :: ts) = (((handle s t).queue.each handle ts).1,
      (handle s t).kept.toList ++ ((handle s t).queue.each handle ts).2.1,
      (handle s t).notices ++ ((handle s t).queue.each handle ts).2.2) := rfl

/-- A notification of a pass is sent while one of its transactions is treated. -/
theorem each_notices {handle : TradeQueueManager F → Transaction F → Handled F}
    (s : TradeQueueManager F) {ts : List (Transaction F)} {n : Notice F}
    (hn : n ∈ (s.each handle ts).2.2) : ∃ t ∈ ts, ∃ s', n ∈ (handle s' t).notices := by
  induction ts generalizing s with
  | nil => cases hn
  | cons t ts ih =>
      simp only [each_cons] at hn
      rcases List.mem_append.mp hn with hn | hn
      · exact ⟨t, by simp, s, hn⟩
      · obtain ⟨u, hu, hnu⟩ := ih _ hn
        exact ⟨u, by simp [hu], hnu⟩

/-- A pass opens nothing. -/
theorem each_length_le (handle : TradeQueueManager F → Transaction F → Handled F)
    (s : TradeQueueManager F) (ts : List (Transaction F)) : (s.each handle ts).2.1.length ≤ ts.length := by
  induction ts generalizing s with
  | nil => exact Nat.le_refl 0
  | cons t ts ih =>
      have h1 : (handle s t).kept.toList.length ≤ 1 := by cases (handle s t).kept <;> simp
      have h2 := ih (handle s t).queue
      simp only [each_cons, List.length_append, List.length_cons]
      omega

theorem getLast?_getD_append (xs ys : List Int) (d : Int) :
    (xs ++ ys).getLast?.getD d = ys.getLast?.getD (xs.getLast?.getD d) := by
  rw [List.getLast?_append]
  cases ys.getLast? <;> rfl

theorem Sound.each_framed (h : Sound handle) (s : TradeQueueManager F) (ts : List (Transaction F)) :
    Framed s (s.each handle ts).1 := by
  induction ts generalizing s with
  | nil => exact .refl s
  | cons t ts ih => exact (h.framed s t).trans (ih _)

theorem Sound.each_about (h : Sound handle) (s : TradeQueueManager F) {ts : List (Transaction F)}
    {n : Notice F} (hn : n ∈ (s.each handle ts).2.2) : ∃ t ∈ ts, n.about = some t.ref := by
  induction ts generalizing s with
  | nil => cases hn
  | cons t ts ih =>
      simp only [each_cons] at hn
      rcases List.mem_append.mp hn with hn | hn
      · exact ⟨t, by simp, h.about s t n hn⟩
      · obtain ⟨u, hu, hnu⟩ := ih _ hn
        exact ⟨u, by simp [hu], hnu⟩

theorem Sound.each_kept (h : Sound handle) (s : TradeQueueManager F) {ts : List (Transaction F)}
    {k : Transaction F} (hk : k ∈ (s.each handle ts).2.1) : ∃ t ∈ ts, k.ref = t.ref := by
  induction ts generalizing s with
  | nil => cases hk
  | cons t ts ih =>
      simp only [each_cons] at hk
      rcases List.mem_append.mp hk with hk | hk
      · exact ⟨t, by simp, h.kept s t k (Option.mem_toList.mp hk)⟩
      · obtain ⟨u, hu, hku⟩ := ih _ hk
        exact ⟨u, by simp [hu], hku⟩

/-- Every transaction of the pass stays open or has its end reported, once. -/
theorem Sound.each_conserves (h : Sound handle) (s : TradeQueueManager F) (ts : List (Transaction F))
    (r : Nat) : (refs (s.each handle ts).2.1).count r + terminated (s.each handle ts).2.2 r =
      (refs ts).count r := by
  induction ts generalizing s with
  | nil => rfl
  | cons t ts ih =>
      have h1 := h.conserves s t r
      have h2 := ih (handle s t).queue
      have h3 : refs (t :: ts) = refs [t] ++ refs ts := rfl
      simp only [each_cons, refs_append, List.count_append, terminated_append, h3]
      omega

/-- The local counter follows the open list. -/
theorem Sound.each_counter (h : Sound handle) (s : TradeQueueManager F) {ts : List (Transaction F)}
    (hl : (ts.length : Int) ≤ s.localOpenTrades) :
    (s.each handle ts).1.localOpenTrades =
      s.localOpenTrades - ts.length + (s.each handle ts).2.1.length := by
  induction ts generalizing s with
  | nil => simp [each]
  | cons t ts ih =>
      simp only [List.length_cons] at hl
      have h1 := h.counter s t (by omega)
      have h2 := ih (handle s t).queue (by omega)
      simp only [each_cons, List.length_append, List.length_cons]
      omega

/-- The last count that the pass publishes is the one it leaves behind. -/
theorem Sound.each_published (h : Sound handle) (s : TradeQueueManager F) (ts : List (Transaction F)) :
    ((s.each handle ts).2.2.filterMap Notice.count?).getLast?.getD s.currentOpenTrades =
      (s.each handle ts).1.currentOpenTrades := by
  induction ts generalizing s with
  | nil => rfl
  | cons t ts ih =>
      simp only [each_cons, List.filterMap_append, getLast?_getD_append, h.published s t]
      exact ih _

end Pass

end TradeQueueManager

end OptionX.TradeExecution
