import OptionX.TradeExecution.Lemmas.OpenTrades
import OptionX.TradeExecution.Lemmas.Outcome

/-!
# The trade queue

What the queue tells about every trade over a run: how often it reports an end, with which outcome, and what it
counts as open.
-/

namespace OptionX.TradeExecution

namespace TradeQueueManager

open Lib.Run (exec trace)

variable {F : Type} [Zero F] [Add F] [DecidableEq F] [LT F] [DecidableLT F]

/-! ## One terminal notification -/

/-- At every moment of a run, an accepted transaction that has left both lists has had its end reported once,
and is not mentioned afterwards. -/
def DeliveredOnce (s : TradeQueueManager F) (es : List (Event F)) : Prop :=
  ∀ pre post, es = pre ++ post → ∀ r < (exec step s pre).nextRef, present (exec step s pre) r = 0 →
    terminated (notices (trace step s pre)) r = 1 ∧
      ∀ n ∈ notices (trace step (exec step s pre) post), n.about ≠ some r

/-- No pending transaction has waited for the queue timeout when the pending pass looks. -/
def NoneExpired (s : TradeQueueManager F) (e : Event F) : Prop :=
  ∀ account clock, e = .processPending account clock →
    ∀ x ∈ s.pendingTransactions, expired account clock.nowMs x = false

omit [Zero F] [Add F] [DecidableEq F] [LT F] [DecidableLT F] in
theorem noneExpired_iff (s : TradeQueueManager F) (e : Event F) : NoneExpired s e ↔ expiredBy s e = [] := by
  cases e with
  | processPending account clock =>
      simp only [expiredBy, refs, List.map_eq_nil_iff, List.filter_eq_nil_iff, Bool.not_eq_true]
      exact ⟨fun h => h account clock rfl, fun h a c he => by cases he; exact h⟩
  | _ => exact ⟨fun _ => rfl, fun _ _ _ he => by cases he⟩

/-- Every trade gets exactly one terminal notification if and only if none is dropped for waiting too long. -/
theorem deliveredOnce_iff (required : Bool) (es : List (Event F)) :
    DeliveredOnce (create required) es ↔
      ∀ t ∈ trace step (create required) es, NoneExpired t.before t.event := by
  refine ⟨fun h t ht => ?_, fun h pre post hes r hr ha => ?_⟩
  · obtain ⟨pre, e, post, rfl, rfl⟩ := Lib.Run.mem_trace ht
    refine (noneExpired_iff _ _).mpr (List.eq_nil_iff_forall_not_mem.mpr fun r hr => ?_)
    have hpos := List.count_pos_iff.mpr hr
    -- the expired transaction is the only trace of itself after the step
    have hc := conserved required (pre ++ [e]) r
    simp only [notices, expiredIn, Lib.Run.trace_append, Lib.Run.trace_cons, Lib.Run.trace_nil,
      List.flatMap_append, List.flatMap_cons, List.flatMap_nil, List.append_nil, List.count_append,
      Lib.Run.stepOf_before, Lib.Run.stepOf_event] at hc hpos
    have hlt : r < (exec step (create (F := F) required) (pre ++ [e])).nextRef := by
      by_contra hge
      rw [if_neg hge] at hc
      omega
    rw [if_pos hlt] at hc
    have := (h (pre ++ [e]) post (by simp) r hlt (by omega)).1
    simp only [notices, Lib.Run.trace_append, Lib.Run.trace_cons, Lib.Run.trace_nil,
      List.flatMap_append, List.flatMap_cons, List.flatMap_nil, List.append_nil] at this
    omega
  · subst hes
    have hnone : expiredIn (trace step (create (F := F) required) pre) = [] := by
      refine List.flatMap_eq_nil_iff.mpr fun t ht => (noneExpired_iff _ _).mp (h t ?_)
      rw [Lib.Run.trace_append]
      exact List.mem_append_left _ ht
    have hc := conserved required pre r
    rw [hnone, if_pos hr, ha] at hc
    exact ⟨by simpa using hc, (absent_forever hr ha post).2⟩

/-- An account that accepts everything, with the limits as given. -/
def openAccount (openTrades maxTrades : Int) : AccountInfo Int where
  accountType := .demo
  currency := .usd
  connectionStatus := true
  orderIntervalMs := 0
  orderQueueTimeout := 10
  responseTimeout := 10
  openTrades := fun _ => openTrades
  maxTrades := fun _ => maxTrades
  balance := fun _ _ => 100
  payout := fun _ _ => 80
  bySymbol := fun _ _ => true
  byOption := fun _ _ => true
  byOrder := fun _ _ => true
  byAccount := fun _ _ => true
  byCurrency := fun _ _ => true
  forTrade := fun _ _ _ => true

def sprintRequest : TradeRequest Int where
  symbol := "EURUSD"
  tradeId := 0
  optionType := .sprint
  orderType := .buy
  accountType := .unknown
  currency := .unknown
  amount := 10
  duration := 60
  expiryTime := 0

def placeSprint : AddTrade Int where
  request := some sprintRequest
  platformType := 1
  preprocess := fun request result => some (request, result)
  providedTradeId := none
  generatedTradeId := 7

/-- A trade placed at 0 that no pass looks at before its ten seconds are over. -/
def lateEvents : List (Event Int) :=
  [.addTrade (openAccount 0 1) placeSprint 0, .processPending (openAccount 0 1) ⟨10000, 10000⟩]

/-- The expired trade has left the queue and nothing has been said about it. -/
theorem expiry_is_silent : ¬ DeliveredOnce (create (F := Int)) lateEvents := by
  intro h
  have := (h lateEvents [] (by simp) 0 (by decide) (by decide)).1
  revert this
  decide

/-! ## Settled outcomes -/

/-- At every moment of a run, an open transaction with a terminal result has it reported as it is, unless the
broker writes again. -/
def OutcomesKept (s : TradeQueueManager F) (es : List (Event F)) : Prop :=
  ∀ pre mid post, es = pre ++ mid ++ post → ∀ x ∈ (exec step s pre).openTransactions,
    isTerminalState x.result.tradeState = true → (∀ write, Event.broker x.ref write ∉ mid) →
      Reports (notices (trace step (exec step s pre) mid)) x

/-- Settled outcomes survive a run if and only if the forced end of all trades never meets one that it would
change. -/
theorem outcomesKept_iff (required : Bool) (es : List (Event F)) :
    OutcomesKept (create required) es ↔
      ∀ t ∈ trace step (create required) es, Spares t.before t.event := by
  refine ⟨fun h t ht => ?_, fun h pre mid post hes x hx ht hb => ?_⟩
  · obtain ⟨pre, e, post, rfl, rfl⟩ := Lib.Run.mem_trace ht
    have hd : Distinct (exec step (create (F := F) required) pre) := distinct required pre
    have hforced : ∀ x ∈ (exec step (create (F := F) required) pre).openTransactions,
        isTerminalState x.result.tradeState = true → (∀ write, e ≠ .broker x.ref write) →
        Reports ((exec step (create required) pre).step e).2 x := by
      intro x hx hxt hne
      have := h pre [e] post (by simp) x hx hxt (fun write hm => hne write (List.mem_singleton.mp hm).symm)
      simpa [notices] using this
    simp only [Lib.Run.stepOf_before, Lib.Run.stepOf_event]
    cases e with
    | finalizeAll account nowMs =>
        intro x hx hxt
        exact (finalizeAllTrades_settled hd hx account nowMs).1.mp
          (hforced x hx hxt (fun _ he => by cases he))
    | disconnectRequest account nowMs =>
        intro x hx hxt
        have hrep := hforced x hx hxt (fun _ he => by cases he)
        simp only [step, onDisconnectRequest] at hrep
        split at hrep
        · exact (finalizeAllTrades_settled (s := { exec step (create required) pre with
            openTradesSnapshotReady := false }) hd hx account nowMs).1.mp hrep
        · exact (finalizeAllTrades_settled hd hx account nowMs).1.mp hrep
    | _ => trivial
  · subst hes
    have hfresh : ∀ r, (exec step (create (F := F) required) pre).nextRef ≤ r →
        present (exec step (create (F := F) required) pre) r = 0 := by
      intro r hr
      have := conserved (F := F) required pre r
      rw [if_neg (by omega)] at this
      omega
    refine run_settled (distinct required pre) hfresh hx ht (fun t htm => h t ?_) hb
    rw [Lib.Run.trace_append, Lib.Run.trace_append]
    exact List.mem_append_left _ (List.mem_append_right _ htm)

/-- The broker's final word on a trade that won. -/
def writeWin (result : TradeResult Int) : TradeResult Int :=
  { result.setState .win with profit := 8, closeDate := 61000 }

/-- A trade is placed, sent and won. -/
def wonEvents : List (Event Int) :=
  [.addTrade (openAccount 0 1) placeSprint 0, .processPending (openAccount 0 1) ⟨1000, 1000⟩,
    .broker 0 writeWin]

def lateDisconnect : Event Int := .disconnectRequest (openAccount 1 1) 62000

/-- A disconnect that comes before the finalizing pass reports the won trade as a check error. -/
theorem disconnect_overwrites_outcome :
    ¬ OutcomesKept (create (F := Int)) (wonEvents ++ [lateDisconnect]) := by
  intro h
  have hrep := h wonEvents [lateDisconnect] [] rfl
    ((exec step (create (F := Int)) wonEvents).openTransactions.head (by decide)) (List.head_mem _)
    (by decide) (fun write hm => by cases List.mem_singleton.mp hm)
  have hsame := hrep _ (List.mem_cons_of_mem _ List.mem_cons_self) rfl rfl
  have := hsame.tradeState
  revert this
  decide

/-! ## The open-trade count -/

/-- In a run whose account echoes the published count, at every moment: a broker request is sent under the limit
only, and the count is within the limit or the last accepted snapshot. -/
theorem echoed_run {limit published accepted : Int} {s : TradeQueueManager F} (hb : Balanced s)
    (hpub : s.currentOpenTrades ≤ published) (hle : s.currentOpenTrades ≤ max limit accepted)
    {es : List (Event F)} (he : Echoes limit s published es) :
    (∀ t ∈ trace step s es, ∀ ref, Notice.tradeRequest ref ∈ t.answer →
      t.before.currentOpenTrades < limit) ∧
      ∀ pre post, es = pre ++ post →
        (exec step s pre).currentOpenTrades ≤ max limit (lastAccepted accepted (trace step s pre)) := by
  induction es generalizing s published accepted with
  | nil =>
      refine ⟨by simp, fun pre post h => ?_⟩
      obtain ⟨rfl, rfl⟩ := List.append_eq_nil_iff.mp h.symm
      exact hle
  | cons e es ih =>
      obtain ⟨hpub', hle', hsend⟩ := echoed_step hb hpub hle he.1
      obtain ⟨h1, h2⟩ := ih (hb.step e) hpub' hle' he.2
      refine ⟨fun t ht => ?_, fun pre post h => ?_⟩
      · rcases List.mem_cons.mp ht with rfl | ht
        · exact hsend
        · exact h1 t ht
      · cases pre with
        | nil => exact hle
        | cons e' pre =>
            rw [List.cons_append, List.cons.injEq] at h
            obtain ⟨rfl, rfl⟩ := h
            have := h2 pre post rfl
            rwa [Lib.Run.exec_cons, Lib.Run.trace_cons, lastAccepted_cons]

/-- The accounting of open trades, between any two operations of any run. -/
theorem open_trades_accounted (required : Bool) (es : List (Event F)) :
    (Balanced (exec step (create (F := F) required) es) ∧
      0 ≤ (exec step (create (F := F) required) es).localOpenTrades ∧
      0 ≤ (exec step (create (F := F) required) es).snapshotOpenTrades) ∧
      ∀ limit published : Int, 0 ≤ published → Echoes limit (create required) published es →
        (∀ t ∈ trace step (create required) es, ∀ ref, Notice.tradeRequest ref ∈ t.answer →
          t.before.localOpenTrades + t.before.snapshotOpenTrades < limit) ∧
        ∀ pre post, es = pre ++ post →
          (exec step (create required) pre).localOpenTrades +
            (exec step (create required) pre).snapshotOpenTrades ≤
              max limit (lastAccepted 0 (trace step (create required) pre)) := by
  refine ⟨?_, fun limit published hp he => ?_⟩
  · have hb : Balanced (exec step (create (F := F) required) es) :=
      Lib.Run.exec_induct (fun _ e h => h.step e) (.create required) es
    have hc := hb.counter
    have hsp := hb.split
    have hu := hb.unknown_nonneg
    exact ⟨hb, by omega, by omega⟩
  · exact echoed_run (.create required) hp (le_max_right _ _) he

/-- Two trades placed at once under a limit of one: the second stays in the queue. -/
def twoSprints : List (Event Int) :=
  [.addTrade (openAccount 0 1) placeSprint 0, .addTrade (openAccount 0 1) placeSprint 0,
    .processPending (openAccount 0 1) ⟨1000, 1000⟩, .processPending (openAccount 1 1) ⟨2000, 2000⟩]

theorem open_trades_accounted_two :
    (exec step (create (F := Int)) twoSprints).openTransactions.length = 1 ∧
      (exec step (create (F := Int)) twoSprints).localOpenTrades +
        (exec step (create (F := Int)) twoSprints).snapshotOpenTrades ≤
          max 1 (lastAccepted 0 (trace step (create (F := Int)) twoSprints)) :=
  ⟨by decide, ((open_trades_accounted false twoSprints).2 1 0 (by decide) ⟨fun _ _ h => (by cases h),
    fun _ _ h => (by cases h), fun _ _ h _ => (by cases h; exact ⟨rfl, rfl⟩),
    fun _ _ h _ => (by cases h; exact ⟨rfl, rfl⟩), trivial⟩).2 twoSprints [] (by simp)⟩

end TradeQueueManager

end OptionX.TradeExecution
