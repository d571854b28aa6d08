import OptionX.Lib.Run
import OptionX.MarketData.Lemmas.BarRange

/-!
# Lost trust is kept

While a bar route has an unresolved boundary, nothing it does but the bookkeeping of a usable result moves that
boundary up or clears it, and it emits no `LIVE`. `KeepsTrust` says so for every function of the route.
-/

namespace OptionX.MarketData

/-- The update by which a route claims continuity. -/
def BarNotice.isLive : BarNotice → Bool
  | .continuity update => update.status == .live
  | _ => false

namespace BarRoute

/-- An unresolved boundary is neither cleared nor raised, and no `LIVE` is emitted over it. -/
structure KeepsTrust (s s' : BarRoute) (ns : List BarNotice) : Prop where
  kept : s.unverifiedFromTimeMs ≠ 0 →
    s'.unverifiedFromTimeMs ≠ 0 ∧ s'.unverifiedFromTimeMs ≤ s.unverifiedFromTimeMs
  quiet : s.unverifiedFromTimeMs ≠ 0 → ∀ n ∈ ns, n.isLive = false

theorem KeepsTrust.of_eq {s s' : BarRoute} {ns : List BarNotice}
    (h : s'.unverifiedFromTimeMs = s.unverifiedFromTimeMs) (hn : ∀ n ∈ ns, n.isLive = false) :
    KeepsTrust s s' ns :=
  ⟨fun hu => ⟨h ▸ hu, h.le⟩, fun _ => hn⟩

theorem KeepsTrust.refl (s : BarRoute) : KeepsTrust s s [] := .of_eq rfl (by simp)

theorem KeepsTrust.trans {s s' s'' : BarRoute} {ns ns' : List BarNotice} (h : KeepsTrust s s' ns)
    (h' : KeepsTrust s' s'' ns') : KeepsTrust s s'' (ns ++ ns') where
  kept hu := by
    obtain ⟨h1, h2⟩ := h.kept hu
    obtain ⟨h3, h4⟩ := h'.kept h1
    exact ⟨h3, h4.trans h2⟩
  quiet hu n hn := by
    rcases List.mem_append.mp hn with hn | hn
    · exact h.quiet hu n hn
    · exact h'.quiet (h.kept hu).1 n hn

/-- Notifications of the same steps in another order. -/
theorem KeepsTrust.mono {s s' : BarRoute} {ns ns' : List BarNotice} (h : KeepsTrust s s' ns)
    (hsub : ∀ n ∈ ns', n ∈ ns ∨ n.isLive = false) : KeepsTrust s s' ns' :=
  ⟨h.kept, fun hu n hn => (hsub n hn).elim (h.quiet hu n) id⟩

/-- The boundary before a step may be read in any state that has the same one. -/
theorem KeepsTrust.of_before {s s₀ s' : BarRoute} {ns : List BarNotice}
    (h : KeepsTrust s₀ s' ns) (h₀ : s₀.unverifiedFromTimeMs = s.unverifiedFromTimeMs) :
    KeepsTrust s s' ns :=
  ⟨fun hu => h₀ ▸ h.kept (h₀ ▸ hu), fun hu => h.quiet (h₀ ▸ hu)⟩

/-! ## What is said -/

theorem notifyContinuity_quiet (s : BarRoute) {update : ContinuityUpdate} (h : update.status ≠ .live) :
    ∀ n ∈ s.notifyContinuity update, n.isLive = false := by
  intro n hn
  unfold notifyContinuity at hn
  split at hn
  · rw [List.mem_singleton.mp hn]
    simpa [BarNotice.isLive] using h
  · cases hn

theorem deliverBars_quiet (s : BarRoute) (items : List Bar) :
    ∀ n ∈ s.deliverBars items, n.isLive = false := by
  intro n hn
  unfold deliverBars at hn
  split at hn
  · rw [List.mem_singleton.mp hn]
    rfl
  · cases hn

theorem quiet_append {ns ns' : List BarNotice} (h : ∀ n ∈ ns, n.isLive = false)
    (h' : ∀ n ∈ ns', n.isLive = false) : ∀ n ∈ ns ++ ns', n.isLive = false := by
  intro n hn
  exact (List.mem_append.mp hn).elim (h n) (h' n)

/-! ## The watermarks -/

theorem observeBar_unverified (s : BarRoute) (bar : Bar) :
    (s.observeBar bar).unverifiedFromTimeMs = s.unverifiedFromTimeMs := by
  unfold observeBar
  dsimp only
  split <;> rfl

theorem recordBarProgress_unverified (s : BarRoute) (bars : List Bar) :
    (s.recordBarProgress bars).unverifiedFromTimeMs = s.unverifiedFromTimeMs := by
  induction bars generalizing s with
  | nil => rfl
  | cons bar bars ih => exact (ih (s.observeBar bar)).trans (s.observeBar_unverified bar)

theorem markUnverified_keeps (s : BarRoute) (fromTimeMs : Nat) :
    KeepsTrust s (s.markUnverified fromTimeMs) [] := by
  unfold markUnverified
  split
  · exact .refl s
  · rename_i hf
    split
    · rename_i h
      refine ⟨fun hu => ⟨hf, ?_⟩, fun _ n hn => by cases hn⟩
      rcases h with h | h
      · exact absurd h hu
      · exact h.le
    · exact .refl s

/-! ## Live bars -/

theorem requestContinuityHistory_unverified (s : BarRoute) (pending : PendingContinuityRequest) :
    (s.requestContinuityHistory pending).1.unverifiedFromTimeMs = s.unverifiedFromTimeMs := by
  unfold requestContinuityHistory
  split <;> rfl

theorem requestContinuityHistory_keeps (s : BarRoute) (pending : PendingContinuityRequest) :
    KeepsTrust s (s.requestContinuityHistory pending).1 (s.requestContinuityHistory pending).2 := by
  refine .of_eq (s.requestContinuityHistory_unverified pending) ?_
  unfold requestContinuityHistory
  split
  · simp
  · refine quiet_append ?_ (by simp [BarNotice.isLive])
    have hb : ∀ n ∈ s.notifyContinuity {
        status := .backfilling, fromTimeMs := pending.fromTimeMs, toTimeMs := pending.toTimeMs
        requestedItems := pending.requestedItems
        message := "Requesting historical bars for the detected gap." }, n.isLive = false :=
      s.notifyContinuity_quiet (by simp)
    cases pending.kind with
    | prefill => simp
    | gapBackfill =>
        refine quiet_append ?_ hb
        split
        · exact s.notifyContinuity_quiet (by simp)
        · simp
    | reconnectBackfill => exact s.notifyContinuity_quiet (by simp)

theorem releaseBuffer_keeps (s : BarRoute) (batches : List BarDataBatch) :
    (s.releaseBuffer batches).1.unverifiedFromTimeMs = s.unverifiedFromTimeMs ∧
      ∀ n ∈ (s.releaseBuffer batches).2, n.isLive = false := by
  induction batches generalizing s with
  | nil => exact ⟨rfl, by simp [releaseBuffer]⟩
  | cons batch batches ih =>
      obtain ⟨h1, h2⟩ := ih (s.recordBarProgress batch.items)
      exact ⟨h1.trans (s.recordBarProgress_unverified _),
        quiet_append (s.deliverBars_quiet _) h2⟩

/-- What routing a batch keeps, whatever is sent first. -/
def Routed.Keeps (s : BarRoute) (r : Routed) : Prop :=
  KeepsTrust s r.route (r.continuity ++ r.deliveries)

theorem bufferContinuityBatch_keeps (s : BarRoute) (batch : BarDataBatch) (pushFront : Bool) :
    Routed.Keeps s (s.bufferContinuityBatch batch pushFront).2 := by
  unfold bufferContinuityBatch
  dsimp only
  split
  · exact .of_eq rfl (by simp)
  · obtain ⟨h1, h2⟩ := s.releaseBuffer_keeps s.buffer
    refine .of_eq ((recordBarProgress_unverified _ _).trans h1) (quiet_append ?_ ?_)
    · simp [BarNotice.isLive]
    · exact quiet_append h2 (deliverBars_quiet _ _)

theorem recoverGap_keeps (s : BarRoute) (batch : BarDataBatch) (processBuffered : Bool)
    (gap : List Bar × Nat × Nat × List Bar) :
    Routed.Keeps s (s.recoverGap batch processBuffered gap) := by
  unfold recoverGap
  split
  · exact .refl s
  · rename_i pending _
    dsimp only
    have hdelivered : ∀ n ∈ (if gap.1.isEmpty then [] else s.deliverBars gap.1), n.isLive = false := by
      split
      · simp
      · exact s.deliverBars_quiet gap.1
    have hb := bufferContinuityBatch_keeps (s.recordBarProgress gap.1)
      { batch with items := gap.2.2.2 } processBuffered
    have hb' : Routed.Keeps s ((s.recordBarProgress gap.1).bufferContinuityBatch
        { batch with items := gap.2.2.2 } processBuffered).2 :=
      KeepsTrust.of_before hb (s.recordBarProgress_unverified gap.1)
    split
    · refine KeepsTrust.mono hb' fun n hn => ?_
      rcases List.mem_append.mp hn with hn | hn
      · exact .inl (List.mem_append_left _ hn)
      · rcases List.mem_append.mp hn with hn | hn
        · exact .inr (hdelivered n hn)
        · exact .inl (List.mem_append_right _ hn)
    · have h := hb'.trans (markUnverified_keeps _ pending.fromTimeMs)
      exact ⟨h.kept, fun _ => hdelivered⟩

theorem routeBarToEntry_keeps (s : BarRoute) (batch : BarDataBatch)
    (processBuffered allowGapRecovery : Bool) (confirmedThroughTimeMs : Nat) :
    Routed.Keeps s
      (s.routeBarToEntry batch processBuffered allowGapRecovery confirmedThroughTimeMs) := by
  unfold routeBarToEntry
  split
  · exact .refl s
  dsimp only
  generalize (if processBuffered && 0 < confirmedThroughTimeMs then _ else _ : List Bar) = items
  split
  · exact .refl s
  split
  · exact s.bufferContinuityBatch_keeps _ _
  split
  · exact s.recoverGap_keeps _ _ _
  · exact .of_eq (s.recordBarProgress_unverified items) (s.deliverBars_quiet items)

theorem routeBars_keeps (s : BarRoute) (batch : BarDataBatch) :
    KeepsTrust s (s.routeBars batch).1 (s.routeBars batch).2 := by
  have h := s.routeBarToEntry_keeps batch false true 0
  unfold routeBars
  dsimp only
  split
  · exact h
  · exact h.trans (requestContinuityHistory_keeps _ _)

/-! ## Prefill and reconnect -/

theorem startContinuity_keeps (s : BarRoute) (clock : RouteClock) :
    KeepsTrust s (s.startContinuity clock).1 (s.startContinuity clock).2 := by
  unfold startContinuity
  split
  · exact .refl s
  · exact KeepsTrust.trans (.of_eq rfl (notifyContinuity_quiet _ (by simp)))
      ((requestContinuityHistory_keeps _ _).of_before rfl)

theorem reconnectFrom_of_unverified {s : BarRoute} (h : s.unverifiedFromTimeMs ≠ 0) :
    s.reconnectFrom = s.unverifiedFromTimeMs := if_pos h

theorem startReconnectRecovery_keeps (s : BarRoute) (clock : RouteClock) :
    KeepsTrust s (s.startReconnectRecovery clock).1 (s.startReconnectRecovery clock).2 := by
  unfold startReconnectRecovery
  split
  · exact .refl s
  dsimp only
  split
  · rename_i h0
    -- `LIVE` is emitted here only when nothing is unresolved
    have hzero : ¬ s.unverifiedFromTimeMs ≠ 0 := fun hu => hu ((reconnectFrom_of_unverified hu).symm.trans h0)
    exact ⟨fun hu => absurd hu hzero, fun hu => absurd hu hzero⟩
  split
  · exact .refl s
  split
  · exact .refl s
  · exact (s.markUnverified_keeps s.reconnectFrom).trans
      ((requestContinuityHistory_keeps _ _).of_before rfl)

/-! ## Completions -/

theorem deliverHistory_keeps (s : BarRoute) (items : List Bar) :
    KeepsTrust s (s.deliverHistory items).1 (s.deliverHistory items).2 := by
  unfold deliverHistory
  split
  · exact .refl s
  · exact .of_eq (s.recordBarProgress_unverified items) (s.deliverBars_quiet items)

theorem finishRecovery_keeps (s : BarRoute) (pending : PendingContinuityRequest) (v : HistoryVerdict) :
    KeepsTrust s (s.finishRecovery pending v).1 (s.finishRecovery pending v).2 := by
  refine ⟨fun hu => ⟨hu, le_refl _⟩, fun hu => ?_⟩
  have hv : (v.usable && s.unverifiedFromTimeMs == 0) = false := by simp [hu]
  unfold finishRecovery
  dsimp only
  rw [hv]
  split
  · simp
  · exact notifyContinuity_quiet _ (by simp)

theorem flushBuffer_keeps (pending : PendingContinuityRequest) (v : HistoryVerdict) (fuel : Nat)
    (s : BarRoute) : KeepsTrust s (flushBuffer pending v fuel s).1 (flushBuffer pending v fuel s).2 := by
  induction fuel generalizing s with
  | zero => exact .refl s
  | succ fuel ih =>
      unfold flushBuffer
      split
      · exact s.finishRecovery_keeps pending v
      · rename_i batch buffer _
        dsimp only
        have hr := routeBarToEntry_keeps { s with
          buffer := buffer, bufferedItems := s.bufferedItems - batch.items.length } batch true v.usable
          (v.confirmedThrough pending)
        refine (hr.of_before (s := s) rfl).trans ?_
        split
        · exact requestContinuityHistory_keeps _ _
        · exact ih _

theorem continueRecovery_keeps (s : BarRoute) (pending : PendingContinuityRequest) (v : HistoryVerdict)
    (recover : Bool) (clock : RouteClock) :
    KeepsTrust s (s.continueRecovery pending v recover clock).1
      (s.continueRecovery pending v recover clock).2 := by
  unfold continueRecovery
  split
  · exact s.startReconnectRecovery_keeps clock
  split
  · split
    · exact .refl s
    · split
      · exact .refl s
      · exact (requestContinuityHistory_keeps _ _).of_before rfl
  · exact flushBuffer_keeps pending v _ s

theorem settled_unverified (s : BarRoute) (pending : PendingContinuityRequest) (v : HistoryVerdict) :
    (s.settled pending v).unverifiedFromTimeMs = (s.settleHistory pending v).unverifiedFromTimeMs := by
  unfold settled
  dsimp only
  split <;> rfl

/-- Everything a finished request does after its bookkeeping. -/
theorem finishHistory_keeps (s : BarRoute) (pending : PendingContinuityRequest) (v : HistoryVerdict)
    (clock : RouteClock) :
    KeepsTrust (s.settled pending v) (s.finishHistory pending v clock).1
      (s.finishHistory pending v clock).2 := by
  refine KeepsTrust.trans (KeepsTrust.trans (.of_eq rfl ?_) (deliverHistory_keeps _ _))
    (continueRecovery_keeps _ _ _ _ _)
  split
  · simp
  · exact notifyContinuity_quiet _ (by simp)

theorem scheduleRetry_keeps (s : BarRoute) (pending : PendingContinuityRequest) (clock : RouteClock) :
    KeepsTrust s (s.scheduleRetry pending clock).1 (s.scheduleRetry pending clock).2 :=
  .of_eq rfl (notifyContinuity_quiet _ (by simp))

/-! ## Transport statuses -/

theorem invalidateTrust_keeps (s : BarRoute) : KeepsTrust s s.invalidateTrust [] := by
  unfold invalidateTrust
  split
  · exact .refl s
  split
  · split
    · exact s.markUnverified_keeps _
    · exact .refl s
  split
  · exact s.markUnverified_keeps _
  · exact s.markUnverified_keeps _

theorem loseTransport_keeps (s : BarRoute) : KeepsTrust s s.loseTransport [] := by
  have h := invalidateTrust_keeps { s with
    generation := s.generation + 1, requestInFlight := false, retryRequest := none, retryAtMs := 0
    reconnectTargetTimeMs := 0 }
  exact ⟨h.kept, h.quiet⟩

theorem resumeTransport_unverified (s : BarRoute) :
    s.resumeTransport.1.unverifiedFromTimeMs = s.unverifiedFromTimeMs := by
  unfold resumeTransport
  repeat' split
  all_goals rfl

theorem applyStreamStatus_keeps (s : BarRoute) (status : StreamStatus) :
    KeepsTrust s (s.applyStreamStatus status).1 (s.applyStreamStatus status).2.1 := by
  unfold applyStreamStatus
  dsimp only
  split
  · refine s.loseTransport_keeps.mono fun n hn => .inr ?_
    split at hn
    · rw [List.mem_singleton.mp hn]
      rfl
    · cases hn
  split
  · exact .of_eq s.resumeTransport_unverified (by simp)
  · exact .refl s

theorem startWork_keeps (s : BarRoute) (work : Option Work) (clock : RouteClock) :
    KeepsTrust s (s.startWork work clock).1 (s.startWork work clock).2 := by
  cases work with
  | none => exact .refl s
  | some work =>
      cases work with
      | prefill => exact s.startContinuity_keeps clock
      | reconnect => exact s.startReconnectRecovery_keeps clock

theorem routedStatus_quiet (s : BarRoute) (status : StreamStatus) :
    ∀ n ∈ s.routedStatus status, n.isLive = false := by
  intro n hn
  unfold routedStatus at hn
  split at hn
  · rw [List.mem_singleton.mp hn]
    rfl
  · cases hn

theorem routeStatus_keeps (s : BarRoute) (status : StreamStatus) (clock : RouteClock) :
    KeepsTrust s (s.routeStatus status clock).1 (s.routeStatus status clock).2 := by
  unfold routeStatus
  split
  · exact .refl s
  · refine KeepsTrust.trans (KeepsTrust.mono (s.applyStreamStatus_keeps status) fun n hn => ?_)
      (startWork_keeps _ _ _)
    exact (List.mem_append.mp hn).elim (fun h => .inr (s.routedStatus_quiet status n h)) .inl

theorem replayStatus_keeps (s : BarRoute) (replay : Option StreamStatus) :
    KeepsTrust s (s.replayStatus replay).1 (s.replayStatus replay).2.1 := by
  cases replay with
  | none => exact .refl s
  | some status => exact s.applyStreamStatus_keeps status

theorem completeActive_keeps (s : BarRoute) (replay : Option StreamStatus) (clock : RouteClock) :
    let applied := s.replayStatus replay
    let prefill := if 0 < s.prefillBars then applied.1.startContinuity clock else (applied.1, [])
    let started := prefill.1.startWork applied.2.2 clock
    KeepsTrust s started.1
      (prefill.2 ++ (replay.map s.routedStatus).getD [] ++ applied.2.1 ++ started.2) := by
  intro applied prefill started
  have hrouted : ∀ n ∈ (replay.map s.routedStatus).getD [], n.isLive = false := by
    cases replay with
    | none => simp
    | some status => exact s.routedStatus_quiet status
  have hprefill : KeepsTrust applied.1 prefill.1 prefill.2 := by
    simp only [prefill]
    split
    · exact startContinuity_keeps _ clock
    · exact .refl _
  refine KeepsTrust.trans (KeepsTrust.mono ((s.replayStatus_keeps replay).trans hprefill)
    fun n hn => ?_) (startWork_keeps _ _ _)
  simp only [List.mem_append] at hn ⊢
  rcases hn with (hn | hn) | hn
  · exact .inl (.inr hn)
  · exact .inr (hrouted n hn)
  · exact .inl (.inl hn)

theorem completeSubscribe_keeps (s : BarRoute) (replay : Option StreamStatus) (clock : RouteClock) :
    KeepsTrust s (s.completeSubscribe replay clock).1 (s.completeSubscribe replay clock).2 := by
  unfold completeSubscribe
  split
  · exact .refl s
  dsimp only
  have hactive := completeActive_keeps { s with entryPhase := .active } replay clock
  exact hactive.of_before rfl

theorem retryHistory_keeps (s : BarRoute) (pending : PendingContinuityRequest) :
    KeepsTrust s (s.retryHistory pending).1 (s.retryHistory pending).2 :=
  (requestContinuityHistory_keeps _ _).of_before rfl

theorem process_keeps (s : BarRoute) (clock : RouteClock) :
    KeepsTrust s (s.process clock).1 (s.process clock).2 := by
  unfold process
  split
  · exact .refl s
  split
  · split
    · exact .refl s
    · exact s.retryHistory_keeps _
  · split
    · exact s.startReconnectRecovery_keeps clock
    · exact .refl s

/-! ## Every step -/

/-- How a history operation ends: with a usable result, or for good without one. A stale completion and one
that is retried end nothing. -/
inductive Outcome where
  | confirmed (pending : PendingContinuityRequest)
  | unusable (pending : PendingContinuityRequest)

def outcome (s : BarRoute) : Event → Option Outcome
  | .history id result _ =>
      match s.operations.find? (·.id == id) with
      | none => none
      | some operation =>
          let v := s.judge operation.pending result
          if !s.current operation || s.retries operation.pending v then none
          else if v.usable then some (.confirmed operation.pending)
          else some (.unusable operation.pending)
  | _ => none

/-- What a step does to the boundary: nothing but the bookkeeping of its outcome clears or raises it. -/
theorem step_keeps (s : BarRoute) (e : Event) :
    (outcome s e = none ∧ KeepsTrust s (s.step e).1 (s.step e).2) ∨
      ∃ s₀ pending v, s₀.unverifiedFromTimeMs = s.unverifiedFromTimeMs ∧
        s₀.timeframe = s.timeframe ∧ s₀.reconnectTargetTimeMs = s.reconnectTargetTimeMs ∧
        outcome s e = some (if v.usable then .confirmed pending else .unusable pending) ∧
        KeepsTrust (settleHistory s₀ pending v) (s.step e).1 (s.step e).2 := by
  cases e with
  | subscribed replay clock => exact .inl ⟨rfl, s.completeSubscribe_keeps replay clock⟩
  | bars batch => exact .inl ⟨rfl, s.routeBars_keeps batch⟩
  | status status clock => exact .inl ⟨rfl, s.routeStatus_keeps status clock⟩
  | process clock => exact .inl ⟨rfl, s.process_keeps clock⟩
  | unsubscribe => exact .inl ⟨rfl, .of_eq rfl (by simp [step])⟩
  | subscriberGone => exact .inl ⟨rfl, .of_eq rfl (by simp [step])⟩
  | history id result clock =>
      simp only [outcome, step, completeOperation]
      cases hfind : s.operations.find? (·.id == id) with
      | none => exact .inl ⟨rfl, .refl s⟩
      | some operation =>
          dsimp only
          generalize hs₀ : { s with operations := s.operations.filter (·.id != id) } = s₀
          have hu : s₀.unverifiedFromTimeMs = s.unverifiedFromTimeMs := by rw [← hs₀]
          have hcurrent : s₀.current operation = s.current operation := by rw [← hs₀]; rfl
          have hjudge : s₀.judge operation.pending result = s.judge operation.pending result := by
            rw [← hs₀]
            rfl
          have hretries : ∀ v, s₀.retries operation.pending v = s.retries operation.pending v := by
            rw [← hs₀]
            exact fun _ => rfl
          unfold completeContinuity
          rw [hcurrent, hjudge]
          generalize s.judge operation.pending result = v
          by_cases hc : s.current operation = true
          · simp only [hc, Bool.not_true, Bool.false_or, Bool.false_eq_true, if_false]
            rw [hretries]
            by_cases hr : s.retries operation.pending v = true
            · simp only [hr, if_true]
              exact .inl ⟨trivial, (scheduleRetry_keeps _ _ _).of_before hu⟩
            · simp only [hr, Bool.false_eq_true, if_false]
              refine .inr ⟨{ s₀ with requestInFlight := false, phase := .flushing }, operation.pending, v,
                hu, by rw [← hs₀], by rw [← hs₀], ?_, ?_⟩
              · split <;> rfl
              · exact (finishHistory_keeps _ _ _ _).of_before (settled_unverified _ _ _)
          · simp only [hc, Bool.not_false, Bool.true_or, if_true]
            exact .inl ⟨trivial, (KeepsTrust.refl s₀).of_before hu⟩

/-! ## Outstanding operations -/

/-- The starts of the operations that ended unusable and that no usable result has covered since, after one
more step. -/
def outstanding (starts : List Nat) (s : BarRoute) (e : Event) : List Nat :=
  match outcome s e with
  | none => starts
  | some (.unusable pending) => starts ++ [pending.fromTimeMs]
  | some (.confirmed pending) =>
      starts.filter (fun start => !(pending.fromTimeMs ≤ start && start ≤ pending.toTimeMs))

/-- Every outstanding start is at or above the boundary, to the second. -/
def Watched (starts : List Nat) (s : BarRoute) : Prop :=
  ∀ start ∈ starts, s.unverifiedFromTimeMs ≠ 0 ∧ requestStart s.unverifiedFromTimeMs ≤ start

theorem Watched.keeps {starts : List Nat} {s s' : BarRoute} {ns : List BarNotice} (h : Watched starts s)
    (hk : KeepsTrust s s' ns) : Watched starts s' := by
  intro start hm
  obtain ⟨h1, h2⟩ := h start hm
  obtain ⟨h3, h4⟩ := hk.kept h1
  exact ⟨h3, (requestStart_mono h4).trans h2⟩

/-- What one boundary can stand for: an unusable operation is not below the boundary that is already known, and
a result that settles the boundary leaves no outstanding start behind. -/
def Heeds (starts : List Nat) (s : BarRoute) (e : Event) : Prop :=
  match outcome s e with
  | none => True
  | some (.unusable pending) =>
      pending.fromTimeMs ≠ 0 ∧
        (s.unverifiedFromTimeMs = 0 ∨ requestStart s.unverifiedFromTimeMs ≤ pending.fromTimeMs)
  | some (.confirmed pending) =>
      pending.kind ≠ .prefill → pending.fromTimeMs ≤ s.unverifiedFromTimeMs →
        s.unverifiedFromTimeMs ≤ pending.toTimeMs → ∀ start ∈ starts,
          pending.fromTimeMs ≤ start ∧ (start ≤ pending.toTimeMs ∨
            pending.kind = .reconnectBackfill ∧ pending.toTimeMs < s.reconnectTargetTimeMs ∧
              pending.toTimeMs + s.timeframeMs ≤ start)

/-- The bookkeeping of an unusable result. -/
theorem settle_unusable {starts : List Nat} {s : BarRoute} {pending : PendingContinuityRequest}
    {v : HistoryVerdict} (hv : v.usable = false) (h : Watched starts s) (hf : pending.fromTimeMs ≠ 0)
    (hle : s.unverifiedFromTimeMs = 0 ∨ requestStart s.unverifiedFromTimeMs ≤ pending.fromTimeMs) :
    Watched (starts ++ [pending.fromTimeMs]) (s.settleHistory pending v) := by
  have hu : (s.settleHistory pending v).unverifiedFromTimeMs =
      if s.unverifiedFromTimeMs = 0 then pending.fromTimeMs else s.unverifiedFromTimeMs := by
    unfold settleHistory markUnverified
    simp only [hv, hf]
    repeat' split
    all_goals simp_all
  intro start hm
  rw [hu]
  rcases List.mem_append.mp hm with hm | hm
  · obtain ⟨h1, h2⟩ := h start hm
    rw [if_neg h1]
    exact ⟨h1, h2⟩
  · rw [List.mem_singleton.mp hm]
    split
    · exact ⟨hf, requestStart_le _⟩
    · rename_i h0
      exact ⟨h0, hle.resolve_left h0⟩

/-- The bookkeeping of a usable result. -/
theorem settle_confirmed {starts : List Nat} {s : BarRoute} {pending : PendingContinuityRequest}
    {v : HistoryVerdict} (hv : v.usable = true) (h : Watched starts s)
    (hcover : pending.kind ≠ .prefill → pending.fromTimeMs ≤ s.unverifiedFromTimeMs →
      s.unverifiedFromTimeMs ≤ pending.toTimeMs → ∀ start ∈ starts,
        pending.fromTimeMs ≤ start ∧ (start ≤ pending.toTimeMs ∨
          pending.kind = .reconnectBackfill ∧ pending.toTimeMs < s.reconnectTargetTimeMs ∧
            pending.toTimeMs + s.timeframeMs ≤ start)) :
    Watched (starts.filter (fun start => !(pending.fromTimeMs ≤ start && start ≤ pending.toTimeMs)))
      (s.settleHistory pending v) := by
  intro start hm
  obtain ⟨hm, hout⟩ := List.mem_filter.mp hm
  obtain ⟨h1, h2⟩ := h start hm
  have hout' : ¬ (pending.fromTimeMs ≤ start ∧ start ≤ pending.toTimeMs) := by
    rintro ⟨hge, hle⟩
    simp [hge, hle] at hout
  unfold settleHistory
  dsimp only
  simp only [hv, Bool.not_true, Bool.false_eq_true, if_false]
  split
  · exact ⟨h1, h2⟩
  rename_i hk
  have hkind : pending.kind ≠ .prefill := by simpa using hk
  unfold recordVerifiedRange
  split
  · exact ⟨h1, h2⟩
  split
  · exact ⟨h1, h2⟩
  rename_i hcovers
  have hin : pending.fromTimeMs ≤ s.unverifiedFromTimeMs ∧ s.unverifiedFromTimeMs ≤ pending.toTimeMs := by
    simp only [ne_eq, not_and_or, not_not, not_or, not_lt] at hcovers
    exact hcovers.resolve_left h1
  obtain ⟨hge, hle | ⟨hrec, hmore, hnext⟩⟩ := hcover hkind hin.1 hin.2 start hm
  · exact absurd ⟨hge, hle⟩ hout'
  · simp only [hrec, beq_self_eq_true, hmore, decide_true, Bool.and_self, Bool.not_true,
      Bool.false_eq_true, if_false]
    split
    · exact ⟨by omega, (requestStart_le _).trans hnext⟩
    · exact ⟨by omega, (requestStart_le _).trans (by omega)⟩

/-- One step that heeds the outstanding starts keeps them watched, and emits `LIVE` only when there are none. -/
theorem Watched.step {starts : List Nat} {s : BarRoute} (h : Watched starts s) {e : Event}
    (he : Heeds starts s e) :
    Watched (outstanding starts s e) (s.step e).1 ∧
      ((∃ n ∈ (s.step e).2, n.isLive = true) → outstanding starts s e = []) := by
  have hlive : ∀ {starts' : List Nat} {s' : BarRoute}, Watched starts' s' →
      KeepsTrust s' (s.step e).1 (s.step e).2 →
      (∃ n ∈ (s.step e).2, n.isLive = true) → starts' = [] := by
    rintro starts' s' hw hk ⟨n, hn, hl⟩
    refine List.eq_nil_iff_forall_not_mem.mpr fun start hm => ?_
    rw [hk.quiet (hw start hm).1 n hn] at hl
    cases hl
  rcases step_keeps s e with ⟨ho, hk⟩ | ⟨s₀, pending, v, hu, htf, htarget, ho, hk⟩
  · rw [outstanding, ho]
    exact ⟨h.keeps hk, hlive h hk⟩
  · have h₀ : Watched starts s₀ := by
      intro start hm
      rw [hu]
      exact h start hm
    have hsettled : Watched (outstanding starts s e) (s₀.settleHistory pending v) := by
      rw [Heeds, ho] at he
      rw [outstanding, ho]
      cases hv : v.usable with
      | true =>
          simp only [hv, if_true] at he ⊢
          refine settle_confirmed hv h₀ ?_
          rw [hu, htarget, timeframeMs, htf]
          exact he
      | false =>
          simp only [hv, Bool.false_eq_true, if_false] at he ⊢
          exact settle_unusable hv h₀ he.1 (by rw [hu]; exact he.2)
    exact ⟨hsettled.keeps hk, hlive hsettled hk⟩

end BarRoute

end OptionX.MarketData
