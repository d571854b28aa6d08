import OptionX.TradeExecution.Lemmas.Conservation

/-!
# Settled outcomes

An open transaction whose result is terminal is left as it is by every pass but the finalizing one, which
reports it as it is, and the forced end of all trades, which writes over it.
-/

namespace OptionX.TradeExecution

variable {F : Type}

/-- What a terminal notification has to carry unchanged: the state, the profit and the close data. -/
structure SameOutcome (r r' : TradeResult F) : Prop where
  tradeState : r'.tradeState = r.tradeState
  profit : r'.profit = r.profit
  closePrice : r'.closePrice = r.closePrice
  closeDate : r'.closeDate = r.closeDate
  closeBalance : r'.closeBalance = r.closeBalance

theorem SameOutcome.refl (r : TradeResult F) : SameOutcome r r := ⟨rfl, rfl, rfl, rfl, rfl⟩

/-- A result that already is what a forced end at `nowMs` makes of it. -/
structure ForcedAlready (account : AccountInfo F) (nowMs : Int) (t : Transaction F) : Prop where
  tradeState : t.result.tradeState = .checkError
  closeDate : t.result.closeDate = nowMs
  closeBalance : t.result.closeBalance = account.balance t.request nowMs

theorem sameOutcome_forced_iff (account : AccountInfo F) (nowMs : Int) (t : Transaction F) :
    SameOutcome t.result (finalizeTransactionWithError account t.cancelAsyncOperations
      .clientForcedClose .checkError nowMs).result ↔ ForcedAlready account nowMs t :=
  ⟨fun h => ⟨h.tradeState.symm, h.closeDate.symm, h.closeBalance.symm⟩,
    fun h => ⟨h.tradeState.symm, rfl, rfl, h.closeDate.symm, h.closeBalance.symm⟩⟩

namespace TradeQueueManager

/-- What a step says of a transaction with a terminal result: the result as it is. -/
def Reports (ns : List (Notice F)) (x : Transaction F) : Prop :=
  ∀ y, Notice.trade y ∈ ns → y.ref = x.ref → isTerminalState y.result.tradeState = true →
    SameOutcome x.result y.result

/-- The end of all trades spares the outcomes that are settled. -/
def Spares (s : TradeQueueManager F) : Event F → Prop
  | .finalizeAll account nowMs | .disconnectRequest account nowMs =>
      ∀ x ∈ s.openTransactions, isTerminalState x.result.tradeState = true →
        ForcedAlready account nowMs x
  | _ => True

/-! ## One pass -/

section Pass

variable {handle : TradeQueueManager F → Transaction F → Handled F}

theorem each_kept (s : TradeQueueManager F) {ts : List (Transaction F)} {k : Transaction F}
    (hk : k ∈ (s.each handle ts).2.1) : ∃ t ∈ ts, ∃ s', (handle s' t).kept = some k := by
  induction ts generalizing s with
  | nil => cases hk
  | cons t ts ih =>
      simp only [each_cons] at hk
      rcases List.mem_append.mp hk with hk | hk
      · exact ⟨t, by simp, s, Option.mem_toList.mp hk⟩
      · obtain ⟨u, hu, hku⟩ := ih _ hk
        exact ⟨u, by simp [hu], hku⟩

theorem each_keeps (s : TradeQueueManager F) {ts : List (Transaction F)} {x : Transaction F}
    (hx : x ∈ ts) (hkeep : ∀ s', (handle s' x).kept = some x) : x ∈ (s.each handle ts).2.1 := by
  induction ts generalizing s with
  | nil => cases hx
  | cons t ts ih =>
      simp only [each_cons]
      rcases List.mem_cons.mp hx with rfl | hx
      · exact List.mem_append_left _ (by simp [hkeep])
      · exact List.mem_append_right _ (ih _ hx)

/-- What a forced end says about a transaction of its pass is said while it is treated. -/
theorem each_announces (s : TradeQueueManager F) {ts : List (Transaction F)} {x : Transaction F}
    (hx : x ∈ ts) {n : Notice F} (hn : ∀ s', n ∈ (handle s' x).notices) :
    n ∈ (s.each handle ts).2.2 := by
  induction ts generalizing s with
  | nil => cases hx
  | cons t ts ih =>
      simp only [each_cons]
      rcases List.mem_cons.mp hx with rfl | hx
      · exact List.mem_append_left _ (hn s)
      · exact List.mem_append_right _ (ih _ hx)

end Pass

/-- Distinct identities: a transaction in a list is the only one with its identity there. -/
theorem eq_of_ref {ts : List (Transaction F)} (hnd : (refs ts).Nodup) {x t : Transaction F} (hx : x ∈ ts)
    (ht : t ∈ ts) (h : t.ref = x.ref) : t = x :=
  List.inj_on_of_nodup_map hnd ht hx h

section EachOpen

variable {handle : TradeQueueManager F → Transaction F → Handled F} {s : TradeQueueManager F}
  (hs : Sound handle) (hnd : (refs s.openTransactions).Nodup) {x : Transaction F}
  (hx : x ∈ s.openTransactions)

include hs hnd hx

/-- In a pass, only the treatment of a transaction itself speaks of it. -/
theorem eachOpen_own {n : Notice F} (hn : n ∈ (s.eachOpen handle).2) (hr : n.about = some x.ref) :
    ∃ s', n ∈ (handle s' x).notices := by
  obtain ⟨t, ht, s', hn'⟩ := each_notices s hn
  have hab := hs.about s' t n hn'
  rw [hr, Option.some.injEq] at hab
  obtain rfl := eq_of_ref hnd hx ht hab.symm
  exact ⟨s', hn'⟩

/-- A pass that has nothing to do with a transaction keeps it and says nothing of it. -/
theorem eachOpen_keeps (hkeep : ∀ s', handle s' x = ⟨s', some x, []⟩) :
    Reports (s.eachOpen handle).2 x ∧ x ∈ (s.eachOpen handle).1.openTransactions := by
  refine ⟨fun y hy hr _ => ?_, each_keeps s hx (fun s' => by rw [hkeep])⟩
  obtain ⟨s', hn⟩ := eachOpen_own hs hnd hx hy (congrArg some hr)
  rw [hkeep] at hn
  cases hn

/-- A pass that removes a transaction says of it what its treatment says. -/
theorem eachOpen_ends (hend : ∀ s', (handle s' x).kept = none)
    (hsame : ∀ s' y, Notice.trade y ∈ (handle s' x).notices → SameOutcome x.result y.result) :
    Reports (s.eachOpen handle).2 x ∧ x.ref ∉ refs (s.eachOpen handle).1.openTransactions := by
  refine ⟨fun y hy hr _ => ?_, fun hm => ?_⟩
  · obtain ⟨s', hn⟩ := eachOpen_own hs hnd hx hy (congrArg some hr)
    exact hsame s' y hn
  · obtain ⟨k, hk, hkr⟩ := List.mem_map.mp hm
    obtain ⟨t, ht, s', hkt⟩ := each_kept s hk
    have htx : t = x := eq_of_ref hnd hx ht ((hs.kept s' t k hkt).symm.trans hkr)
    rw [htx, hend] at hkt
    cases hkt

end EachOpen

theorem trade_mem_decrement [Add F] {s : TradeQueueManager F} {t u y : Transaction F} {nowMs : Int}
    (h : Notice.trade y ∈ (s.decrementOpenTrades t nowMs).2 ++ [.trade u]) : y = u := by
  unfold decrementOpenTrades at h
  split at h <;> simpa [emitOpenTrades] using h

/-! ## One step -/

variable [Zero F] [Add F] [DecidableEq F] [LT F] [DecidableLT F]

/-- Every transaction is in at most one list, and there once. -/
def Distinct (s : TradeQueueManager F) : Prop := ∀ r, present s r ≤ 1

omit [Zero F] [Add F] [DecidableEq F] [LT F] [DecidableLT F] in
theorem Distinct.nodup {s : TradeQueueManager F} (h : Distinct s) : (refs s.openTransactions).Nodup :=
  List.nodup_iff_count_le_one.mpr (fun r => by have := h r; simp only [present] at this; omega)

omit [Zero F] [Add F] [DecidableEq F] [LT F] [DecidableLT F] in
theorem Distinct.not_pending {s : TradeQueueManager F} (h : Distinct s) {x : Transaction F}
    (hx : x ∈ s.openTransactions) : x.ref ∉ refs s.pendingTransactions := by
  intro hp
  have h1 := List.count_pos_iff.mpr hp
  have h2 : 0 < (refs s.openTransactions).count x.ref := List.count_pos_iff.mpr (List.mem_map_of_mem hx)
  have := h x.ref
  simp only [present] at this
  omega

omit [DecidableEq F] [LT F] [DecidableLT F] in
/-- The forced end reports a settled outcome as it is exactly when it has nothing to change. -/
theorem finalizeAllTrades_settled {s : TradeQueueManager F} (hd : Distinct s) {x : Transaction F}
    (hx : x ∈ s.openTransactions) (account : AccountInfo F) (nowMs : Int) :
    (Reports (s.finalizeAllTrades account nowMs).2 x ↔ ForcedAlready account nowMs x) ∧
      present (s.finalizeAllTrades account nowMs).1 x.ref = 0 := by
  obtain ⟨h1, h2, _, _, emitted, h3, hem⟩ := s.finalizeAllTrades_spec account nowMs
  have hsound := forceClose_sound (F := F) account nowMs
  refine ⟨⟨fun h => ?_, fun hf => ?_⟩, ?_⟩
  · -- the report of the forced end itself is among the notifications
    refine (sameOutcome_forced_iff account nowMs x).mp (h _ ?_ rfl rfl)
    rw [h3]
    refine List.mem_append_left _ (List.mem_append_right _ (each_announces _ hx fun s' => ?_))
    exact List.mem_append_right _ (List.mem_singleton.mpr rfl)
  · intro y hy hr ht
    rw [h3] at hy
    rcases List.mem_append.mp hy with hy | hy
    · rcases List.mem_append.mp hy with hy | hy
      · obtain ⟨p, hp, he⟩ := List.mem_map.mp hy
        rw [← Notice.trade.inj he] at hr
        exact (hd.not_pending hx (hr ▸ List.mem_map_of_mem (f := (·.ref)) hp)).elim
      · refine (eachOpen_ends (s := { s with pendingTransactions := [] }) hsound hd.nodup hx
          (fun _ => rfl) (fun s' z hz => ?_)).1 y hy hr ht
        rw [trade_mem_decrement hz]
        exact (sameOutcome_forced_iff account nowMs x).mpr hf
    · have := (hem _ hy).1
      cases this
  · have hgone : ∀ k, k ∉ (s.finalizeAllTrades account nowMs).1.openTransactions := by
      intro k hk
      rw [h2] at hk
      obtain ⟨t, _, s', hkt⟩ := each_kept _ hk
      cases hkt
    simp only [present, h1, List.eq_nil_iff_forall_not_mem.mpr hgone]
    rfl

/-- A step that the broker does not take keeps a settled outcome or reports it as it is. -/
theorem step_settled {s : TradeQueueManager F} (hd : Distinct s) {x : Transaction F}
    (hx : x ∈ s.openTransactions) (ht : isTerminalState x.result.tradeState = true) {e : Event F}
    (he : Spares s e) (hb : ∀ write, e ≠ .broker x.ref write) :
    Reports (s.step e).2 x ∧ (x ∈ (s.step e).1.openTransactions ∨ present (s.step e).1 x.ref = 0) := by
  have huntouched : ∀ {s' : TradeQueueManager F} {ns : List (Notice F)}, Untouched s s' ns →
      Reports ns x ∧ (x ∈ s'.openTransactions ∨ present s' x.ref = 0) := by
    intro s' ns h
    refine ⟨fun y hy _ _ => ?_, Or.inl (h.open_ ▸ hx)⟩
    have := (h.notices _ hy).1
    cases this
  cases e with
  | addTrade account call nowMs =>
      refine ⟨fun y hy => (by cases hy), Or.inl ?_⟩
      rcases s.addTrade_cases account call nowMs with he | ⟨t, _, he⟩
      · simp only [step, he]
        exact hx
      · simp only [step, he]
        exact hx
  | processSnapshot nowMs => exact huntouched (s.processSnapshot_untouched nowMs)
  | processPending account clock =>
      refine ⟨fun y hy hr _ => ?_, Or.inl (s.processPending_open account clock hx)⟩
      exact (hd.not_pending hx (s.processPending_about account clock hy (congrArg some hr))).elim
  | processClosing account nowMs =>
      refine (eachOpen_keeps (closing_sound account nowMs) hd.nodup hx (fun s' => ?_)).imp_right Or.inl
      rcases closing_cases account nowMs s' x with ⟨u, ns, he, _, _, hk⟩ | ⟨_, _, _, _, _, hnt, _⟩
      · obtain ⟨rfl, rfl⟩ := hk ht
        exact he
      · rw [ht] at hnt
        cases hnt
  | processFinalizing nowMs =>
      have hf : ∀ s', finalizing nowMs s' x = ⟨(s'.decrementOpenTrades x.cancelAsyncOperations nowMs).1,
          none, (s'.decrementOpenTrades x.cancelAsyncOperations nowMs).2 ++
            [.trade x.cancelAsyncOperations]⟩ := fun s' => by simp [finalizing, ht]
      obtain ⟨hrep, hgone⟩ := eachOpen_ends (finalizing_sound nowMs) hd.nodup hx
        (fun s' => by rw [hf]) (fun s' y hy => by
          rw [hf] at hy
          rw [trade_mem_decrement hy]
          exact .refl _)
      refine ⟨hrep, Or.inr ?_⟩
      have hp := eachOpen_pending (finalizing_sound nowMs) s
      simp only [step, processFinalizingTransactions, present, hp, Nat.add_eq_zero_iff,
        List.count_eq_zero]
      exact ⟨hd.not_pending hx, hgone⟩
  | finalizeAll account nowMs =>
      obtain ⟨h1, h2⟩ := finalizeAllTrades_settled hd hx account nowMs
      exact ⟨h1.mpr (he x hx ht), Or.inr h2⟩
  | priceUpdate batches =>
      refine (eachOpen_keeps (priced_sound batches) hd.nodup hx (fun s' => ?_)).imp_right Or.inl
      obtain ⟨u, ns, he, _, _, hk⟩ := priced_cases batches s' x
      obtain ⟨rfl, rfl⟩ := hk ht
      exact he
  | disconnectRequest account nowMs =>
      simp only [step, onDisconnectRequest]
      split
      · obtain ⟨h1, h2⟩ := finalizeAllTrades_settled
          (s := { s with openTradesSnapshotReady := false }) hd hx account nowMs
        exact ⟨h1.mpr (he x hx ht), Or.inr h2⟩
      · obtain ⟨h1, h2⟩ := finalizeAllTrades_settled hd hx account nowMs
        exact ⟨h1.mpr (he x hx ht), Or.inr h2⟩
  | openTradesSnapshot event => exact huntouched (s.onOpenTradesSnapshot_untouched event)
  | snapshotAvailability ready => exact huntouched (s.onSnapshotAvailability_untouched ready)
  | broker ref write =>
      refine ⟨fun y hy => (by cases hy), Or.inl ?_⟩
      have hne : x.ref ≠ ref := fun h => hb write (h ▸ rfl)
      exact List.mem_map.mpr ⟨x, hx, if_neg hne⟩

/-! ## A run -/

theorem Distinct.step {s : TradeQueueManager F} (h : Distinct s) (hn : ∀ r, s.nextRef ≤ r → present s r = 0)
    (e : Event F) :
    Distinct (s.step e).1 ∧ ∀ r, (s.step e).1.nextRef ≤ r → present (s.step e).1 r = 0 := by
  refine ⟨fun r => ?_, fun r hr => ?_⟩
  · obtain ⟨hc, _⟩ := s.step_conserves e r
    have h1 := h r
    have h2 := hn r
    split at hc <;> omega
  · obtain ⟨hc, hle⟩ := s.step_conserves e r
    rw [if_neg (by omega)] at hc
    have := hn r (by omega)
    omega

theorem distinct (required : Bool) (es : List (Event F)) :
    Distinct (Lib.Run.exec step (create required) es) := by
  intro r
  have := conserved required es r
  split at this <;> omega

/-- Until the broker writes again, a settled outcome is reported as it is. -/
theorem run_settled {s : TradeQueueManager F} (hd : Distinct s)
    (hn : ∀ r, s.nextRef ≤ r → present s r = 0) {x : Transaction F} (hx : x ∈ s.openTransactions)
    (ht : isTerminalState x.result.tradeState = true) {es : List (Event F)}
    (hspare : ∀ t ∈ Lib.Run.trace TradeQueueManager.step s es, Spares t.before t.event)
    (hb : ∀ write, Event.broker x.ref write ∉ es) :
    Reports (notices (Lib.Run.trace TradeQueueManager.step s es)) x := by
  induction es generalizing s with
  | nil => exact fun y hy => by cases hy
  | cons e es ih =>
      obtain ⟨hrep, hnext⟩ := step_settled hd hx ht
        (hspare (Lib.Run.stepOf TradeQueueManager.step s e) (by simp))
        (fun write h => hb write (h ▸ List.mem_cons_self))
      obtain ⟨hd', hn'⟩ := hd.step hn e
      intro y hy hr hty
      simp only [notices, Lib.Run.trace_cons, List.flatMap_cons, List.mem_append] at hy
      rcases hy with hy | hy
      · exact hrep y hy hr hty
      rcases hnext with hx' | hgone
      · exact ih hd' hn' hx' (fun t h => hspare t (by simp [h]))
          (fun write h => hb write (List.mem_cons_of_mem _ h)) y hy hr hty
      · have hlt : x.ref < (s.step e).1.nextRef := by
          by_contra hge
          have hle := (s.step_conserves e x.ref).2
          have h0 := hn x.ref (by omega)
          simp only [present, Nat.add_eq_zero_iff, List.count_eq_zero] at h0
          exact h0.2 (List.mem_map_of_mem hx)
        exact ((absent_forever hlt hgone es).2 _ hy (congrArg some hr)).elim

end TradeQueueManager

end OptionX.TradeExecution
