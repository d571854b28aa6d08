import OptionX.MarketData.Control
import OptionX.MarketData.Lemmas.BarFrame
import OptionX.MarketData.Lemmas.BarRange

/-!
# The control of a bar route

Every function of a bar route makes moves of its control, and what it sends to the provider is what the moves
send.
-/

namespace OptionX.MarketData

namespace BarRoute

open Control (Move Moves Ends)

def attempts : Attempts PendingContinuityRequest where
  attempt p := p.attempt
  again p := { p with announceGap := false, attempt := p.attempt + 1 }
  good _ := True
  attempt_again _ := rfl
  good_again _ _ := trivial

def control (s : BarRoute) : Control PendingContinuityRequest where
  entry := s.entryPhase
  mode := s.mode
  prefills := 0 < s.prefillBars
  gridMs := s.timeframeMs
  maxAttempts := s.retry.maxAttempts
  phase := s.phase
  prefillPending := s.initialPrefillPending
  inFlight := s.requestInFlight
  generation := s.generation
  retry := s.retryRequest
  next := s.nextOperation

def sentOperation (o : ContinuityOperation) : Sent PendingContinuityRequest := ⟨o.id, o.pending, o.generation⟩

def unfinished (s : BarRoute) : List (Sent PendingContinuityRequest) := s.operations.map sentOperation

def sentBy : BarNotice → Option (Sent PendingContinuityRequest)
  | .request operation => some (sentOperation operation)
  | _ => none

/-- The requests among what a route sends. -/
def sentOf (ns : List BarNotice) : List (Sent PendingContinuityRequest) := ns.filterMap sentBy

@[simp] theorem sentOf_nil : sentOf [] = [] := rfl
@[simp] theorem sentOf_append (ns ns' : List BarNotice) : sentOf (ns ++ ns') = sentOf ns ++ sentOf ns' :=
  List.filterMap_append

@[simp] theorem sentOf_notifyContinuity (s : BarRoute) (update : ContinuityUpdate) :
    sentOf (s.notifyContinuity update) = [] := by
  unfold notifyContinuity
  split <;> rfl

@[simp] theorem sentOf_deliverBars (s : BarRoute) (items : List Bar) : sentOf (s.deliverBars items) = [] := by
  unfold deliverBars
  split <;> rfl

@[simp] theorem sentOf_routedStatus (s : BarRoute) (status : StreamStatus) :
    sentOf (s.routedStatus status) = [] := by
  unfold routedStatus
  split <;> rfl

/-- A step between two states whose controls are related by `T`. -/
structure Drives (T : Control PendingContinuityRequest → List (Sent PendingContinuityRequest) →
    Control PendingContinuityRequest → Prop) (s s' : BarRoute) (ns : List BarNotice) : Prop where
  control : T s.control (sentOf ns) s'.control
  unfinished : s'.unfinished = s.unfinished ++ sentOf ns

section

variable {s s' s'' : BarRoute} {ns ns' : List BarNotice}

theorem Drives.trans (h : Drives (Moves attempts) s s' ns) (h' : Drives (Moves attempts) s' s'' ns') :
    Drives (Moves attempts) s s'' (ns ++ ns') where
  control := by
    rw [sentOf_append]
    exact h.control.trans h'.control
  unfinished := by rw [h'.unfinished, h.unfinished, sentOf_append, List.append_assoc]

theorem Drives.ends (h : Drives (Moves attempts) s s' ns) (h' : Drives (Ends attempts) s' s'' ns') :
    Drives (Ends attempts) s s'' (ns ++ ns') where
  control := by
    rw [sentOf_append]
    exact h.control.ends h'.control
  unfinished := by rw [h'.unfinished, h.unfinished, sentOf_append, List.append_assoc]

theorem Drives.then (h : Drives (Ends attempts) s s' ns) (h' : Drives (Moves attempts) s' s'' ns') :
    Drives (Ends attempts) s s'' (ns ++ ns') where
  control := by
    rw [sentOf_append]
    exact h.control.then h'.control
  unfinished := by rw [h'.unfinished, h.unfinished, sentOf_append, List.append_assoc]

theorem Drives.moves (h : Drives (Ends attempts) s s' ns) : Drives (Moves attempts) s s' ns :=
  ⟨h.control.moves, h.unfinished⟩

theorem Drives.of_move (hm : Move attempts s.control [] s'.control) (hu : s'.unfinished = s.unfinished)
    (hn : sentOf ns = []) : Drives (Ends attempts) s s' ns where
  control := by
    rw [hn]
    exact hm.ends
  unfinished := by rw [hn, hu, List.append_nil]

theorem Drives.of_eq (hc : s'.control = s.control) (hu : s'.unfinished = s.unfinished) (hn : sentOf ns = []) :
    Drives (Moves attempts) s s' ns where
  control := by
    rw [hn, hc]
    exact .refl _
  unfinished := by rw [hn, hu, List.append_nil]

theorem Drives.stay (s : BarRoute) : Drives (Moves attempts) s s [] := .of_eq rfl rfl rfl

/-- What is sent before a step and holds no request does not count. -/
theorem Drives.prepend {T} (h : Drives T s s' ns) (hn : sentOf ns' = []) : Drives T s s' (ns' ++ ns) where
  control := by
    rw [sentOf_append, hn]
    exact h.control
  unfinished := by
    rw [sentOf_append, hn]
    exact h.unfinished

theorem Drives.append {T} (h : Drives T s s' ns) (hn : sentOf ns' = []) : Drives T s s' (ns ++ ns') where
  control := by
    rw [sentOf_append, hn, List.append_nil]
    exact h.control
  unfinished := by
    rw [sentOf_append, hn, List.append_nil]
    exact h.unfinished

/-- A step from a state with the same control and operations. -/
theorem Drives.of_same {T} (h : Drives T s' s'' ns) (hc : s'.control = s.control)
    (hu : s'.unfinished = s.unfinished) : Drives T s s'' ns where
  control := hc ▸ h.control
  unfinished := hu ▸ h.unfinished

end

/-! ## Requests -/

theorem requestContinuityHistory_sent {s : BarRoute} (hactive : s.entryPhase = .active)
    (hflight : s.requestInFlight = true) (pending : PendingContinuityRequest) :
    (s.requestContinuityHistory pending).1.control = { s.control with next := s.nextOperation + 1 } ∧
      (s.requestContinuityHistory pending).1.unfinished = s.unfinished ++ [s.control.send pending] ∧
      sentOf (s.requestContinuityHistory pending).2 = [s.control.send pending] := by
  unfold requestContinuityHistory
  rw [if_neg (by simp [active, hactive, hflight])]
  refine ⟨rfl, by simp [unfinished, sentOperation, Control.send, control], ?_⟩
  dsimp only
  rw [sentOf_append]
  have hquiet : ∀ ns : List BarNotice, sentOf ns = [] →
      sentOf ns ++ sentOf [BarNotice.request ⟨s.nextOperation, pending, s.generation⟩] =
        [s.control.send pending] := by
    intro ns hns
    rw [hns]
    rfl
  refine hquiet _ ?_
  cases pending.kind with
  | prefill => rfl
  | gapBackfill =>
      dsimp only
      split <;> simp
  | reconnectBackfill => simp

/-- A first attempt goes out from `s`, prepared in `s₀`. -/
theorem request_ends {s s₀ : BarRoute} {pending : PendingContinuityRequest} {phase : ContinuityPhase}
    (hphase : phase = .prefilling ∨ phase = .recovering)
    (hc : s₀.control = { s.control with phase, inFlight := true }) (hu : s₀.unfinished = s.unfinished)
    (hactive : s.entryPhase = .active) (he : s.mode.enabled = true) (hf : s.requestInFlight = false)
    (hr : s.retryRequest = none) (hp : pending.attempt = 1) :
    Drives (Ends attempts) s (s₀.requestContinuityHistory pending).1
      (s₀.requestContinuityHistory pending).2 := by
  have hactive₀ : s₀.entryPhase = .active := (congrArg Control.entry hc).trans hactive
  have hsend : s₀.control.send pending = s.control.send pending := by
    rw [hc]
    rfl
  have hnext : s₀.nextOperation = s.nextOperation := congrArg Control.next hc
  obtain ⟨h1, h2, h3⟩ := requestContinuityHistory_sent hactive₀ (congrArg Control.inFlight hc) pending
  refine ⟨?_, by rw [h2, h3, hu]⟩
  rw [h1, h3, hsend, hc, hnext]
  exact (Move.request hphase hactive he hf hr hp trivial).ends

/-! ## Progress and trust leave the control alone -/

theorem recordBarProgress_control (s : BarRoute) (bars : List Bar) :
    (s.recordBarProgress bars).control = s.control ∧ (s.recordBarProgress bars).operations = s.operations := by
  obtain ⟨v, hv⟩ := s.recordBarProgress_eq bars
  rw [hv]
  exact ⟨rfl, rfl⟩

theorem markUnverified_control (s : BarRoute) (fromTimeMs : Nat) :
    (s.markUnverified fromTimeMs).control = s.control ∧
      (s.markUnverified fromTimeMs).operations = s.operations := by
  rw [markUnverified_eq]
  exact ⟨rfl, rfl⟩

theorem releaseBuffer_control (s : BarRoute) (batches : List BarDataBatch) :
    (s.releaseBuffer batches).1.control = s.control ∧
      (s.releaseBuffer batches).1.operations = s.operations ∧ sentOf (s.releaseBuffer batches).2 = [] := by
  induction batches generalizing s with
  | nil => exact ⟨rfl, rfl, rfl⟩
  | cons batch batches ih =>
      obtain ⟨h1, h2, h3⟩ := ih (s.recordBarProgress batch.items)
      obtain ⟨h4, h5⟩ := s.recordBarProgress_control batch.items
      refine ⟨h1.trans h4, h2.trans h5, ?_⟩
      simp only [releaseBuffer, sentOf_append, sentOf_deliverBars, List.nil_append]
      exact h3

theorem unfinished_congr {s s' : BarRoute} (h : s'.operations = s.operations) : s'.unfinished = s.unfinished := by
  rw [unfinished, h, unfinished]

/-! ## Live bars -/

/-- What is sent while routing holds no request. -/
def Routed.Silent (r : Routed) : Prop := sentOf r.continuity = [] ∧ sentOf r.deliveries = []

theorem bufferContinuityBatch_control (s : BarRoute) (batch : BarDataBatch) (pushFront : Bool) :
    Routed.Silent (s.bufferContinuityBatch batch pushFront).2 ∧
      (s.bufferContinuityBatch batch pushFront).2.request = none ∧
      (s.bufferContinuityBatch batch pushFront).2.route.operations = s.operations ∧
      if (s.bufferContinuityBatch batch pushFront).1 = true then
        (s.bufferContinuityBatch batch pushFront).2.route.control = s.control
      else Move attempts s.control [] (s.bufferContinuityBatch batch pushFront).2.route.control := by
  unfold bufferContinuityBatch
  dsimp only
  split
  · exact ⟨⟨rfl, rfl⟩, rfl, rfl, rfl⟩
  · obtain ⟨h1, h2, h3⟩ := s.releaseBuffer_control s.buffer
    obtain ⟨h4, h5⟩ := (s.releaseBuffer s.buffer).1.recordBarProgress_control
      (batch.items.map (fun bar => { bar with flags := bar.flags.markLive true }))
    refine ⟨⟨rfl, ?_⟩, rfl, h5.trans h2, ?_⟩
    · rw [sentOf_append, h3, sentOf_deliverBars, List.nil_append]
    · have hm := Move.overflow (A := attempts) s.control
      rw [← h1, ← h4] at hm
      rw [if_neg Bool.false_ne_true, ← h1, ← h4]
      exact hm

/-- Routing a batch makes moves, or prepares a request. -/
structure Routed.Turns (s : BarRoute) (r : Routed) : Prop where
  silent : r.Silent
  operations : r.route.operations = s.operations
  route : (r.request = none ∧ Moves attempts s.control [] r.route.control) ∨
    ∃ pending, r.request = some pending ∧ pending.attempt = 1 ∧
      r.route.control = { s.control with phase := .recovering, inFlight := true }

theorem recoverGap_turns (s : BarRoute) (batch : BarDataBatch) (processBuffered : Bool)
    (gap : List Bar × Nat × Nat × List Bar) : Routed.Turns s (s.recoverGap batch processBuffered gap) := by
  unfold recoverGap
  split
  · exact ⟨⟨rfl, rfl⟩, rfl, .inl ⟨rfl, .refl _⟩⟩
  · rename_i pending hp
    dsimp only
    obtain ⟨h1, h2⟩ := s.recordBarProgress_control gap.1
    obtain ⟨⟨h3, h4⟩, h5, h6, h7⟩ := bufferContinuityBatch_control (s.recordBarProgress gap.1)
      { batch with items := gap.2.2.2 } processBuffered
    have hdelivered : sentOf (if gap.1.isEmpty then [] else s.deliverBars gap.1) = [] := by
      split
      · rfl
      · exact s.sentOf_deliverBars gap.1
    split
    · rename_i hheld
      rw [Bool.not_eq_true'] at hheld
      rw [if_neg (by rw [hheld]; exact Bool.false_ne_true), h1] at h7
      refine ⟨⟨h3, ?_⟩, h6.trans h2, .inl ⟨h5, h7.moves⟩⟩
      rw [sentOf_append, hdelivered, h4, List.nil_append]
    · rename_i hheld
      rw [if_pos (by simpa using hheld)] at h7
      obtain ⟨h8, h9⟩ := markUnverified_control ((s.recordBarProgress gap.1).bufferContinuityBatch
        { batch with items := gap.2.2.2 } processBuffered).2.route pending.fromTimeMs
      refine ⟨⟨rfl, hdelivered⟩, h9.trans (h6.trans h2), .inr ⟨pending, rfl, ?_, ?_⟩⟩
      · unfold boundedRequest at hp
        dsimp only at hp
        split at hp
        · cases hp
        · cases hp
          rfl
      · rw [← h1, ← h7, ← h8]
        rfl

/-- A request is prepared only by a route that is active, recovers gaps and has no request in flight. -/
theorem routeBarToEntry_turns (s : BarRoute) (batch : BarDataBatch) (processBuffered allowGapRecovery : Bool)
    (confirmedThroughTimeMs : Nat) :
    let r := s.routeBarToEntry batch processBuffered allowGapRecovery confirmedThroughTimeMs
    Routed.Turns s r ∧ (r.request.isSome = true → s.entryPhase = .active ∧ s.mode.enabled = true ∧
      s.requestInFlight = false ∧ (processBuffered = false → s.phase.buffersLiveData = false)) := by
  intro r
  have hstay : Routed.Turns s { route := s } := ⟨⟨rfl, rfl⟩, rfl, .inl ⟨rfl, .refl _⟩⟩
  simp only [r]
  unfold routeBarToEntry
  split
  · exact ⟨hstay, fun h => by cases h⟩
  rename_i hguard
  dsimp only
  generalize (if processBuffered && 0 < confirmedThroughTimeMs then _ else _ : List Bar) = items
  split
  · exact ⟨hstay, fun h => by cases h⟩
  split
  · obtain ⟨h1, h2, h3, h4⟩ := s.bufferContinuityBatch_control { batch with items } false
    refine ⟨⟨h1, h3, .inl ⟨h2, ?_⟩⟩, fun h => (by rw [h2] at h; cases h)⟩
    split at h4
    · rw [h4]
      exact .refl _
    · exact h4.moves
  rename_i hbuffers
  cases hgap : (if allowGapRecovery && s.mode.recoversGaps && !s.requestInFlight && 0 < s.timeframe &&
      0 < s.lastObservedTimeMs then findGap s.timeframeMs s.lastObservedTimeMs items else none) with
  | none =>
      obtain ⟨h1, h2⟩ := s.recordBarProgress_control items
      refine ⟨⟨⟨rfl, s.sentOf_deliverBars items⟩, h2, .inl ⟨rfl, ?_⟩⟩, fun h => by cases h⟩
      exact h1 ▸ .refl _
  | some gap =>
      refine ⟨s.recoverGap_turns _ _ gap, fun _ => ?_⟩
      have hrecovers : (s.mode.recoversGaps && !s.requestInFlight) = true := by
        split at hgap
        · rename_i hg
          simp only [Bool.and_eq_true] at hg ⊢
          exact ⟨hg.1.1.1.2, hg.1.1.2⟩
        · cases hgap
      simp only [Bool.and_eq_true, Bool.not_eq_true'] at hrecovers
      have he : s.mode.enabled = true := by
        cases hm : s.mode <;> simp [hm, ContinuityMode.recoversGaps] at hrecovers ⊢
        rfl
      refine ⟨?_, he, hrecovers.2, fun hp => ?_⟩
      · simp only [Bool.or_eq_true, Bool.not_eq_true', not_or, Bool.not_eq_false] at hguard
        simpa [active] using hguard.1.1.1
      · simpa [he, hp] using hbuffers

/-- Without a gap, a held batch is not held again. -/
theorem routeBarToEntry_buffer {s : BarRoute} (batch : BarDataBatch) (allowGapRecovery : Bool)
    (confirmedThroughTimeMs : Nat)
    (h : (s.routeBarToEntry batch true allowGapRecovery confirmedThroughTimeMs).request = none) :
    (s.routeBarToEntry batch true allowGapRecovery confirmedThroughTimeMs).route.buffer = s.buffer ∨
      (s.routeBarToEntry batch true allowGapRecovery confirmedThroughTimeMs).route.buffer = [] := by
  revert h
  unfold routeBarToEntry
  split
  · exact fun _ => .inl rfl
  dsimp only
  generalize (if true && 0 < confirmedThroughTimeMs then _ else _ : List Bar) = items
  split
  · exact fun _ => .inl rfl
  rw [if_neg (by simp)]
  cases hgap : (if allowGapRecovery && s.mode.recoversGaps && !s.requestInFlight && 0 < s.timeframe &&
      0 < s.lastObservedTimeMs then findGap s.timeframeMs s.lastObservedTimeMs items else none) with
  | none =>
      obtain ⟨v, hv⟩ := s.recordBarProgress_eq items
      refine fun _ => .inl ?_
      dsimp only
      rw [hv]
  | some gap =>
      intro h
      dsimp only at h ⊢
      unfold recoverGap at h ⊢
      split at h
      · exact .inl rfl
      · dsimp only at h ⊢
        split at h
        · rename_i hheld
          rw [if_pos hheld]
          unfold bufferContinuityBatch at hheld ⊢
          dsimp only at hheld ⊢
          split at hheld
          · cases hheld
          · rename_i hfits
            rw [if_neg hfits]
            exact .inr rfl
        · cases h

/-- A routed batch whose request, if it has one, is sent at once. -/
theorem Routed.Turns.request {s : BarRoute} {r : Routed} (h : r.Turns s) {pending : PendingContinuityRequest}
    (hr : r.request = some pending) (hs : s.entryPhase = .active ∧ s.mode.enabled = true ∧
      s.requestInFlight = false) (hretry : s.retryRequest = none) :
    Drives (Ends attempts) s (r.route.requestContinuityHistory pending).1
      (r.continuity ++ r.deliveries ++ (r.route.requestContinuityHistory pending).2) := by
  have hsilent : sentOf (r.continuity ++ r.deliveries) = [] := by
    rw [sentOf_append, h.silent.1, h.silent.2, List.nil_append]
  rcases h.route with ⟨hnone, -⟩ | ⟨p, hp, hattempt, hc⟩
  · rw [hnone] at hr
    cases hr
  · rw [hr] at hp
    cases hp
    exact (request_ends (.inr rfl) hc (unfinished_congr h.operations) hs.1 hs.2.1 hs.2.2 hretry hattempt).prepend hsilent

/-- A routed batch without a request. -/
theorem Routed.Turns.moves {s : BarRoute} {r : Routed} (h : r.Turns s) (hr : r.request = none) :
    Drives (Moves attempts) s r.route (r.continuity ++ r.deliveries) := by
  have hsilent : sentOf (r.continuity ++ r.deliveries) = [] := by
    rw [sentOf_append, h.silent.1, h.silent.2, List.nil_append]
  rcases h.route with ⟨-, hm⟩ | ⟨p, hp, -⟩
  · refine ⟨?_, ?_⟩
    · rw [hsilent]
      exact hm
    · rw [hsilent, List.append_nil]
      exact unfinished_congr h.operations
  · rw [hr] at hp
    cases hp

theorem routeBars_moves {s : BarRoute} (batch : BarDataBatch)
    (hretry : s.retryRequest = none ∨ s.phase.buffersLiveData = true) :
    Drives (Moves attempts) s (s.routeBars batch).1 (s.routeBars batch).2 := by
  obtain ⟨ht, hreq⟩ := s.routeBarToEntry_turns batch false true 0
  unfold routeBars
  dsimp only
  cases hr : (s.routeBarToEntry batch false true 0).request with
  | none => exact ht.moves hr
  | some pending =>
      obtain ⟨h1, h2, h3, h4⟩ := hreq (by rw [hr]; rfl)
      refine (ht.request hr ⟨h1, h2, h3⟩ (hretry.resolve_right ?_)).moves
      rw [h4 rfl]
      exact Bool.false_ne_true

/-! ## Prefill and reconnect -/

/-- A prefill that is due is requested, from a state `s₀` that differs from `s` in its phase. -/
theorem startContinuity_ends {s : BarRoute} (s₀ : BarRoute) (hc : s₀.control = { s.control with phase := .prefilling })
    (hu : s₀.unfinished = s.unfinished)
    (hactive : s.entryPhase = .active) (he : s.mode.enabled = true) (hf : s.requestInFlight = false)
    (hr : s.retryRequest = none) (hpending : s.initialPrefillPending = true)
    (hbars : 0 < s.prefillBars) (hbars₀ : s₀.prefillBars = s.prefillBars) (clock : RouteClock) :
    Drives (Ends attempts) s (s₀.startContinuity clock).1 (s₀.startContinuity clock).2 := by
  have h1 : s₀.entryPhase = .active := (congrArg Control.entry hc).trans hactive
  have h2 : s₀.initialPrefillPending = true := (congrArg Control.prefillPending hc).trans hpending
  have h3 : s₀.phase = .prefilling := congrArg Control.phase hc
  have h4 : s₀.requestInFlight = false := (congrArg Control.inFlight hc).trans hf
  unfold startContinuity
  rw [if_neg (by simp [active, h1, h2, h3, h4, hbars₀]; omega)]
  dsimp only
  refine Drives.prepend (request_ends (.inl rfl) ?_ hu hactive he hf hr rfl) (sentOf_notifyContinuity _ _)
  exact congrArg (fun c : Control PendingContinuityRequest =>
    { c with phase := .prefilling, inFlight := true }) hc

theorem startContinuity_stays {s : BarRoute} (h : s.phase ≠ .prefilling) (clock : RouteClock) :
    s.startContinuity clock = (s, []) := by
  unfold startContinuity
  rw [if_pos (by simp [h])]

theorem boundedRequest_attempt {s : BarRoute} {kind : ContinuityRequestKind} {announceGap : Bool}
    {fromMs toMs : Nat} {pending : PendingContinuityRequest}
    (h : s.boundedRequest kind announceGap fromMs toMs = some pending) : pending.attempt = 1 := by
  unfold boundedRequest at h
  dsimp only at h
  split at h
  · cases h
  · cases h
    rfl

theorem enabled_of_recoversGaps {mode : ContinuityMode} (h : mode.recoversGaps = true) : mode.enabled = true := by
  cases mode with
  | liveOnly => cases h
  | prefill => rfl
  | prefillAndRecover => rfl

/-- A reconnect that starts with no retry due: it may have to wait, come to its end, or send a request. -/
theorem startReconnectRecovery_moves {s : BarRoute} (hr : s.retryRequest = none) (clock : RouteClock) :
    Drives (Moves attempts) s (s.startReconnectRecovery clock).1 (s.startReconnectRecovery clock).2 := by
  unfold startReconnectRecovery
  split
  · exact .stay s
  rename_i hguard
  simp only [Bool.or_eq_true, Bool.not_eq_true', not_or, Bool.not_eq_false, Bool.not_eq_true] at hguard
  obtain ⟨⟨⟨⟨⟨hactive, -⟩, hmode⟩, -⟩, hflight⟩, -⟩ := hguard
  dsimp only
  split
  · have hlive : ContinuityPhase.live.buffersLiveData = false := rfl
    refine Drives.moves (.of_move ?_ ?_ (sentOf_notifyContinuity _ _))
    · exact .settle hr hlive
    · rfl
  split
  · exact .stay s
  split
  · exact .stay s
  · rename_i pending hp
    obtain ⟨h1, h2⟩ := s.markUnverified_control s.reconnectFrom
    refine (request_ends (.inr rfl) ?_ ?_ (by simpa [active] using hactive)
      (enabled_of_recoversGaps hmode) hflight hr (boundedRequest_attempt hp)).moves
    · rw [← h1]
      rfl
    · exact unfinished_congr h2

/-! ## Completions -/

theorem sentOf_deliverHistory (s : BarRoute) (items : List Bar) : sentOf (s.deliverHistory items).2 = [] := by
  unfold deliverHistory
  split
  · rfl
  · exact s.sentOf_deliverBars items

theorem finishRecovery_ends {s : BarRoute} (hr : s.retryRequest = none) (pending : PendingContinuityRequest)
    (v : HistoryVerdict) :
    Drives (Ends attempts) s (s.finishRecovery pending v).1 (s.finishRecovery pending v).2 := by
  refine .of_move ?_ rfl ?_
  · refine .settle hr ?_
    unfold finishRecovery
    dsimp only
    split <;> rfl
  · unfold finishRecovery
    dsimp only
    split
    · rfl
    · exact sentOf_notifyContinuity _ _

/-- A flush ends in a request, or with nothing held back. -/
theorem flushBuffer_ends {pending : PendingContinuityRequest} {v : HistoryVerdict} (fuel : Nat)
    {s : BarRoute} (hr : s.retryRequest = none) (hfuel : s.buffer.length < fuel) :
    Drives (Ends attempts) s (s.flushBuffer pending v fuel).1 (s.flushBuffer pending v fuel).2 := by
  induction fuel generalizing s with
  | zero => cases hfuel
  | succ fuel ih =>
      unfold flushBuffer
      split
      · exact finishRecovery_ends hr pending v
      · rename_i batch buffer hbuf
        dsimp only
        generalize hs₀ : ({ s with
          buffer := buffer, bufferedItems := s.bufferedItems - batch.items.length } : BarRoute) = s₀
        have hc : s₀.control = s.control := by rw [← hs₀]; rfl
        have hu : s₀.unfinished = s.unfinished := by rw [← hs₀]; rfl
        have hr₀ : s₀.retryRequest = none := (congrArg Control.retry hc).trans hr
        obtain ⟨ht, hreq⟩ := s₀.routeBarToEntry_turns batch true v.usable (v.confirmedThrough pending)
        generalize hroute : s₀.routeBarToEntry batch true v.usable (v.confirmedThrough pending) = r at ht hreq
        cases hr : r.request with
        | none =>
            dsimp only
            rcases ht.route with ⟨-, hm⟩ | ⟨p, hp, -⟩
            · have hlen : r.route.buffer.length < fuel := by
                have hbuf₀ : s₀.buffer = buffer := by rw [← hs₀]
                rw [← hroute] at hr ⊢
                rw [hbuf, List.length_cons] at hfuel
                cases routeBarToEntry_buffer batch v.usable (v.confirmedThrough pending) hr with
                | inl h => rw [h, hbuf₀]; omega
                | inr h => rw [h, List.length_nil]; omega
              have hd := (ht.moves hr).ends (ih (hm.retry_none hr₀) hlen)
              exact hd.of_same hc hu
            · rw [hr] at hp
              cases hp
        | some pending =>
            obtain ⟨h1, h2, h3, -⟩ := hreq (by rw [hr]; rfl)
            exact (ht.request hr ⟨h1, h2, h3⟩ hr₀).of_same hc hu

/-- A chunk that ends short of the target leaves a whole timeframe before it. -/
def HasRoom (s : BarRoute) (pending : PendingContinuityRequest) : Prop :=
  pending.kind = .reconnectBackfill → pending.toTimeMs < s.reconnectTargetTimeMs →
    pending.toTimeMs + s.timeframeMs ≤ min s.reconnectTargetTimeMs u64Max

instance (s : BarRoute) (pending : PendingContinuityRequest) : Decidable (s.HasRoom pending) :=
  inferInstanceAs (Decidable (_ → _ → _))

/-- The only way for a finished request to leave nothing to wait for. -/
structure Stalls (s : BarRoute) (pending : PendingContinuityRequest) (v : HistoryVerdict) : Prop where
  usable : v.usable = true
  room : ¬ s.HasRoom pending

/-- What goes on after a finished request that leaves no recovery to start. -/
theorem continueRecovery_ends {s : BarRoute} (hactive : s.entryPhase = .active) (hf : s.requestInFlight = false)
    (hr : s.retryRequest = none) (he : s.mode.enabled = true) (htf : 0 < s.timeframe)
    (pending : PendingContinuityRequest) (v : HistoryVerdict) (clock : RouteClock) :
    Drives (Ends attempts) s (s.continueRecovery pending v false clock).1
        (s.continueRecovery pending v false clock).2 ∨
      s.Stalls pending v ∧ s.continueRecovery pending v false clock = (s, []) := by
  unfold continueRecovery
  rw [if_neg Bool.false_ne_true]
  split
  · rename_i hmore
    simp only [Bool.and_eq_true, beq_iff_eq, decide_eq_true_eq] at hmore
    obtain ⟨⟨hv, hkind⟩, hlt⟩ := hmore
    by_cases hroom : pending.toTimeMs + s.timeframeMs ≤ min s.reconnectTargetTimeMs u64Max
    · obtain ⟨htarget, hmax⟩ := le_min_iff.mp hroom
      have hgrid : 1000 ≤ s.timeframeMs := by
        unfold timeframeMs
        omega
      obtain ⟨next, hnext⟩ := boundedRequest_some (s := s) .reconnectBackfill false
        (hgrid.trans (Nat.le_add_left _ _)) hmax htarget
      rw [if_neg (by omega), hnext]
      exact .inl (request_ends (.inr rfl) rfl rfl hactive he hf hr (boundedRequest_attempt hnext))
    · have hstalls : s.Stalls pending v := ⟨hv, fun h => hroom (h hkind hlt)⟩
      split
      · exact .inr ⟨hstalls, rfl⟩
      · split
        · exact .inr ⟨hstalls, rfl⟩
        · rename_i next hnext
          exact .inl (request_ends (.inr rfl) rfl rfl hactive he hf hr (boundedRequest_attempt hnext))
  · exact .inl (flushBuffer_ends _ hr (Nat.lt_succ_self _))

/-- A finished request moves on, from the state after its bookkeeping, or stalls. -/
theorem finishHistory_ends {s : BarRoute} (hactive : s.entryPhase = .active) (hf : s.requestInFlight = false)
    (hr : s.retryRequest = none) (he : s.mode.enabled = true) (htf : 0 < s.timeframe)
    (pending : PendingContinuityRequest) (v : HistoryVerdict) (clock : RouteClock) :
    Drives (Ends attempts) (s.settleHistory pending v) (s.finishHistory pending v clock).1
        (s.finishHistory pending v clock).2 ∨
      s.Stalls pending v ∧ (s.finishHistory pending v clock).1.control = (s.settleHistory pending v).control ∧
        (s.finishHistory pending v clock).1.unfinished = s.unfinished ∧
        sentOf (s.finishHistory pending v clock).2 = [] := by
  obtain ⟨verified, unverified, hs₁⟩ := s.settleHistory_eq pending v
  unfold finishHistory settled
  dsimp only
  have hpp : pending.kind = .prefill → (s.settleHistory pending v).initialPrefillPending = false := by
    intro hk
    rw [hs₁, hk]
    exact Bool.and_false _
  have hroom : ∀ s₂ : BarRoute, s₂.reconnectTargetTimeMs = (s.settleHistory pending v).reconnectTargetTimeMs →
      s₂.timeframe = (s.settleHistory pending v).timeframe → (s₂.HasRoom pending ↔ s.HasRoom pending) := by
    intro s₂ h1 h2
    unfold HasRoom timeframeMs
    rw [h1, h2, hs₁]
  have hactive₁ : (s.settleHistory pending v).entryPhase = .active := by rw [hs₁]; exact hactive
  have hf₁ : (s.settleHistory pending v).requestInFlight = false := by rw [hs₁]; exact hf
  have hr₁ : (s.settleHistory pending v).retryRequest = none := by rw [hs₁]; exact hr
  have he₁ : (s.settleHistory pending v).mode.enabled = true := by rw [hs₁]; exact he
  have htf₁ : 0 < (s.settleHistory pending v).timeframe := by rw [hs₁]; exact htf
  have hu₁ : (s.settleHistory pending v).unfinished = s.unfinished := by rw [hs₁]; rfl
  rw [← hu₁]
  clear hs₁ hu₁
  generalize s.settleHistory pending v = s₁ at *
  generalize hfailed : (if v.usable then [] else notifyContinuity _ _ : List BarNotice) = failed
  have hquiet : sentOf failed = [] := by
    rw [← hfailed]
    split
    · rfl
    · exact sentOf_notifyContinuity _ _
  have hdeliver : ∀ s₂ : BarRoute, ∃ s₃ ns₃, s₂.deliverHistory (v.delivered pending.kind) = (s₃, ns₃) ∧
      s₃.control = s₂.control ∧ s₃.operations = s₂.operations ∧
      s₃.reconnectTargetTimeMs = s₂.reconnectTargetTimeMs ∧ s₃.timeframe = s₂.timeframe ∧
      sentOf (failed ++ ns₃) = [] := by
    intro s₂
    obtain ⟨o, w, hd⟩ := s₂.deliverHistory_eq (v.delivered pending.kind)
    refine ⟨(s₂.deliverHistory _).1, (s₂.deliverHistory _).2, rfl, ?_, ?_, ?_, ?_, ?_⟩
    · rw [hd]
      rfl
    · rw [hd]
    · rw [hd]
    · rw [hd]
    · rw [sentOf_append, hquiet, sentOf_deliverHistory, List.nil_append]
  cases hrecover : s₁.recoversAfterPrefill pending v with
  | true =>
      rw [if_pos rfl]
      have hwait : Drives (Ends attempts) s₁ { s₁ with phase := .recovering } [] := by
        simp only [recoversAfterPrefill, Bool.and_eq_true, beq_iff_eq] at hrecover
        exact .of_move (.wait hrecover.1.2 (hpp hrecover.1.1.1)) rfl rfl
      have hrecover₂ : ({ s₁ with phase := .recovering } : BarRoute).recoversAfterPrefill pending v = true :=
        hrecover
      obtain ⟨s₃, ns₃, hd, hc, ho, -, -, hn⟩ := hdeliver { s₁ with phase := .recovering }
      rw [hrecover₂, hd]
      have hr₃ : s₃.retryRequest = none := (congrArg Control.retry hc).trans hr₁
      have hm := (startReconnectRecovery_moves hr₃ clock).of_same hc (unfinished_congr ho)
      exact .inl (hwait.then (hm.prepend hn))
  | false =>
      rw [if_neg Bool.false_ne_true, hrecover]
      obtain ⟨s₃, ns₃, hd, hc, ho, htarget, htimeframe, hn⟩ := hdeliver s₁
      rw [hd]
      have hf₃ : s₃.requestInFlight = false := (congrArg Control.inFlight hc).trans hf₁
      have hr₃ : s₃.retryRequest = none := (congrArg Control.retry hc).trans hr₁
      have he₃ : s₃.mode.enabled = true := (congrArg (·.mode.enabled) hc).trans he₁
      have hactive₃ : s₃.entryPhase = .active := (congrArg Control.entry hc).trans hactive₁
      rcases continueRecovery_ends hactive₃ hf₃ hr₃ he₃ (by rw [htimeframe]; exact htf₁) pending v clock with
        h | ⟨⟨hv, hno⟩, h⟩
      · exact .inl ((h.prepend hn).of_same hc (unfinished_congr ho))
      · refine .inr ⟨⟨hv, fun h' => hno ((hroom s₃ htarget htimeframe).mpr h')⟩, ?_, ?_, ?_⟩
        · rw [h]
          exact hc
        · rw [h]
          exact unfinished_congr ho
        · rw [h, List.append_nil]
          exact hn

/-- The control once the operation that counts is finished. -/
def Control.flushing (c : Control PendingContinuityRequest) (prefillPending : Bool) :
    Control PendingContinuityRequest :=
  { c with phase := .flushing, inFlight := false, prefillPending }

/-- What the completion that counts leads to: a retry, the next move, or a stall. -/
theorem completeContinuity_cases {s : BarRoute} {operation : ContinuityOperation}
    (hcurrent : s.current operation = true) (hr : s.retryRequest = none) (he : s.mode.enabled = true)
    (htf : 0 < s.timeframe) (result : BarHistoryResult) (clock : RouteClock) :
    let s' := (s.completeContinuity operation result clock).1
    let ns := (s.completeContinuity operation result clock).2
    (s'.unfinished = s.unfinished ∧ sentOf ns = [] ∧ operation.pending.attempt < s.retry.maxAttempts ∧
      ∃ phase, (phase = .prefilling ∨ phase = .recovering) ∧ s'.control = { s.control with
        phase, inFlight := false, retry := some (attempts.again operation.pending) }) ∨
    (s'.unfinished = s.unfinished ++ sentOf ns ∧
      ∃ prefillPending, (prefillPending = true → s.initialPrefillPending = true) ∧
        (Ends attempts (Control.flushing s.control prefillPending) (sentOf ns) s'.control ∨
          s'.control = Control.flushing s.control prefillPending ∧ sentOf ns = [] ∧
            s.Stalls operation.pending (s.judge operation.pending result))) := by
  have hactive : s.entryPhase = .active := by
    simp only [current, Bool.and_eq_true] at hcurrent
    simpa [active] using hcurrent.1.1
  dsimp only
  unfold completeContinuity
  rw [if_neg (by rw [hcurrent]; exact Bool.false_ne_true)]
  dsimp only
  split
  · rename_i hretries
    simp only [retries, Bool.and_eq_true, decide_eq_true_eq] at hretries
    refine .inl ⟨rfl, sentOf_notifyContinuity _ _, hretries.2,
      if operation.pending.kind == .prefill then .prefilling else .recovering, ?_, rfl⟩
    split
    · exact .inl rfl
    · exact .inr rfl
  · obtain ⟨w, u, hsettle⟩ := settleHistory_eq { s with requestInFlight := false, phase := .flushing }
      operation.pending (s.judge operation.pending result)
    have hc : (settleHistory { s with requestInFlight := false, phase := .flushing } operation.pending
        (s.judge operation.pending result)).control =
        Control.flushing s.control (s.initialPrefillPending && operation.pending.kind != .prefill) := by
      rw [hsettle]
      rfl
    have hu : (settleHistory { s with requestInFlight := false, phase := .flushing } operation.pending
        (s.judge operation.pending result)).unfinished = s.unfinished := by
      rw [hsettle]
      rfl
    have hpp : (s.initialPrefillPending && operation.pending.kind != .prefill) = true →
        s.initialPrefillPending = true := by
      rw [Bool.and_eq_true]
      exact And.left
    rcases finishHistory_ends (s := { s with requestInFlight := false, phase := .flushing }) hactive rfl hr he htf
      operation.pending (s.judge operation.pending result) clock with h | ⟨⟨hv, hroom⟩, h1, h2, h3⟩
    · refine .inr ⟨by rw [h.unfinished, hu], _, hpp, .inl ?_⟩
      rw [← hc]
      exact h.control
    · refine .inr ⟨?_, _, hpp, .inr ⟨h1.trans hc, h3, hv, hroom⟩⟩
      rw [h2, h3, List.append_nil]
      rfl

/-! ## Transport statuses and the clock -/

/-- A transport loss, a route that goes on, or a status that means nothing to the route. -/
theorem applyStreamStatus_cases (s : BarRoute) (status : StreamStatus) :
    sentOf (s.applyStreamStatus status).2.1 = [] ∧
      ((s.applyStreamStatus status).1 = s ∧ (s.applyStreamStatus status).2.2 = none ∨
        (s.applyStreamStatus status).2.2 = none ∧ (s.applyStreamStatus status).1.phase = .waitingForReady ∧
          Drives (Ends attempts) s (s.applyStreamStatus status).1 [] ∨
        s.mode.enabled = true ∧ s.phase = .waitingForReady ∧ s.requestInFlight = false ∧
          (s.initialPrefillPending = true ∧ (s.applyStreamStatus status).2.2 = some .prefill ∧
              (s.applyStreamStatus status).1 = { s with phase := .prefilling } ∨
            s.initialPrefillPending = false ∧ s.mode.recoversGaps = true ∧
              (s.applyStreamStatus status).2.2 = some .reconnect ∧
              (s.applyStreamStatus status).1 = { s with phase := .recovering })) := by
  unfold applyStreamStatus
  dsimp only
  split
  · refine ⟨?_, .inr (.inl ⟨rfl, rfl, ?_⟩)⟩
    · dsimp only
      split <;> rfl
    · have hlose : s.loseTransport.control = { s.control with
          phase := .waitingForReady, inFlight := false, generation := s.generation + 1, retry := none } ∧
          s.loseTransport.unfinished = s.unfinished := by
        unfold loseTransport invalidateTrust
        split
        · exact ⟨rfl, rfl⟩
        split
        · split
          · rw [markUnverified_eq]
            exact ⟨rfl, rfl⟩
          · exact ⟨rfl, rfl⟩
        split
        · rw [markUnverified_eq]
          exact ⟨rfl, rfl⟩
        · rw [markUnverified_eq]
          exact ⟨rfl, rfl⟩
      refine .of_move ?_ hlose.2 rfl
      rw [hlose.1]
      exact .lose s.control
  split
  · rename_i hready
    rw [Bool.and_eq_true] at hready
    refine ⟨rfl, ?_⟩
    dsimp only
    unfold resumeTransport
    split
    · rename_i hwaits
      simp only [Bool.and_eq_true, beq_iff_eq, Bool.not_eq_true'] at hwaits
      split
      · rename_i hpp
        exact .inr (.inr ⟨hready.1, hwaits.1, hwaits.2, .inl ⟨hpp, rfl, rfl⟩⟩)
      · rename_i hpp
        split
        · rename_i hmode
          exact .inr (.inr ⟨hready.1, hwaits.1, hwaits.2, .inr ⟨by simpa using hpp, hmode, rfl, rfl⟩⟩)
        · exact .inl ⟨rfl, rfl⟩
    · exact .inl ⟨rfl, rfl⟩
  · exact ⟨rfl, .inl ⟨rfl, rfl⟩⟩

/-- What a route keeps besides the moves: a prefill that is pending is configured, and a due retry has its
phase. -/
structure Settled (s : BarRoute) : Prop where
  held : s.retryRequest.isSome = true → s.phase = .prefilling ∨ s.phase = .recovering
  prefills : s.initialPrefillPending = true → 0 < s.prefillBars

theorem Settled.no_retry {s : BarRoute} (h : s.Settled) (h1 : s.phase ≠ .prefilling) (h2 : s.phase ≠ .recovering) :
    s.retryRequest = none := by
  cases hr : s.retryRequest with
  | none => rfl
  | some p =>
      rcases h.held (by rw [hr]; rfl) with h | h
      · exact absurd h h1
      · exact absurd h h2

theorem routeStatus_moves {s : BarRoute} (hs : s.Settled) (status : StreamStatus) (clock : RouteClock) :
    Drives (Moves attempts) s (s.routeStatus status clock).1 (s.routeStatus status clock).2 := by
  unfold routeStatus
  split
  · exact .stay s
  rename_i hactive
  have hactive : s.entryPhase = .active := by simpa [active] using hactive
  dsimp only
  obtain ⟨hsilent, h⟩ := s.applyStreamStatus_cases status
  have hquiet : sentOf (s.routedStatus status ++ (s.applyStreamStatus status).2.1) = [] := by
    rw [sentOf_append, hsilent, sentOf_routedStatus]
    rfl
  refine Drives.prepend ?_ hquiet
  rcases h with ⟨h1, h2⟩ | ⟨h1, -, h2⟩ | ⟨he, hphase, hf, h⟩
  · rw [h1, h2]
    exact .stay s
  · rw [h1]
    exact h2.moves
  · have hr : s.retryRequest = none := hs.no_retry (by rw [hphase]; decide) (by rw [hphase]; decide)
    rcases h with ⟨hpp, h1, h2⟩ | ⟨hpp, hmode, h1, h2⟩
    · rw [h1, h2]
      exact (startContinuity_ends { s with phase := .prefilling } rfl rfl hactive he hf hr hpp
        (hs.prefills hpp) rfl clock).moves
    · rw [h1, h2]
      have hwait : Drives (Ends attempts) s { s with phase := .recovering } [] :=
        .of_move (.wait hmode hpp) rfl rfl
      have hm := startReconnectRecovery_moves (s := { s with phase := .recovering }) hr clock
      exact hwait.moves.trans hm

theorem process_moves (s : BarRoute) (clock : RouteClock) :
    Drives (Moves attempts) s (s.process clock).1 (s.process clock).2 := by
  unfold process
  split
  · exact .stay s
  rename_i hguard
  simp only [Bool.or_eq_true, Bool.not_eq_true', not_or, Bool.not_eq_false, Bool.not_eq_true] at hguard
  have hactive : s.entryPhase = .active := by simpa [active] using hguard.1
  cases hr : s.retryRequest with
  | some pending =>
      dsimp only
      split
      · exact .stay s
      · unfold retryHistory
        dsimp only
        generalize hph : (if pending.kind == .prefill then .prefilling else .recovering : ContinuityPhase) = ph
        have hphase : ph = .prefilling ∨ ph = .recovering := by
          rw [← hph]
          split
          · exact .inl rfl
          · exact .inr rfl
        obtain ⟨h1, h2, h3⟩ := requestContinuityHistory_sent
          (s := { s with phase := ph, retryRequest := none, retryAtMs := 0, requestInFlight := true }) hactive rfl
          pending
        refine ⟨?_, by rw [h2, h3]; rfl⟩
        rw [h1, h3]
        exact (Move.again hphase hactive hr).moves
  | none =>
      dsimp only
      split
      · exact startReconnectRecovery_moves hr clock
      · exact .stay s

/-! ## Events -/

theorem replayStatus_cases (s : BarRoute) (replay : Option StreamStatus) (h : s.phase ≠ .waitingForReady) :
    sentOf (s.replayStatus replay).2.1 = [] ∧ (s.replayStatus replay).2.2 = none ∧
      ((s.replayStatus replay).1 = s ∨ (s.replayStatus replay).1.phase = .waitingForReady ∧
        Drives (Ends attempts) s (s.replayStatus replay).1 []) := by
  cases replay with
  | none => exact ⟨rfl, rfl, .inl rfl⟩
  | some status =>
      obtain ⟨h1, h2⟩ := s.applyStreamStatus_cases status
      rcases h2 with ⟨h2, h3⟩ | ⟨h2, h3, h4⟩ | ⟨-, hphase, -⟩
      · exact ⟨h1, h3, .inl h2⟩
      · exact ⟨h1, h2, .inr ⟨h3, h4⟩⟩
      · exact absurd hphase h

/-- What is told of a cached status. -/
theorem sentOf_replay (s : BarRoute) (replay : Option StreamStatus) :
    sentOf ((replay.map s.routedStatus).getD []) = [] := by
  cases replay with
  | none => rfl
  | some status => exact s.sentOf_routedStatus status

/-- A route that has just become active starts its prefill, unless the transport is known to be lost. -/
theorem prefill_moves {s : BarRoute} (hs : s.Settled) (hactive : s.entryPhase = .active)
    (hf : s.requestInFlight = false) (hr : s.retryRequest = none)
    (hphase : s.phase = if s.initialPrefillPending then .prefilling else .live)
    (hmode : s.mode.enabled = false → s.initialPrefillPending = false) {applied : BarRoute}
    (ha : applied = s ∨ applied.phase = .waitingForReady ∧ Drives (Ends attempts) s applied [])
    (clock : RouteClock) :
    let prefill := if 0 < s.prefillBars then applied.startContinuity clock else (applied, [])
    Drives (Moves attempts) s prefill.1 prefill.2 ∧ prefill.1.control.Rests := by
  have hstay : applied.phase ≠ .prefilling →
      (if 0 < s.prefillBars then applied.startContinuity clock else (applied, [])) = (applied, []) := by
    intro h
    split
    · exact startContinuity_stays h clock
    · rfl
  dsimp only
  rcases ha with rfl | ⟨hwaits, hends⟩
  · cases hpp : applied.initialPrefillPending with
    | true =>
        rw [hpp, if_pos rfl] at hphase
        have hbars := hs.prefills hpp
        have he : applied.mode.enabled = true := by
          cases hm : applied.mode.enabled with
          | true => rfl
          | false => rw [hmode hm] at hpp; cases hpp
        have hc : applied.control = { applied.control with phase := .prefilling } := by
          rw [← hphase]
          rfl
        have hends := startContinuity_ends applied hc rfl hactive he hf hr hpp hbars rfl clock
        rw [if_pos hbars]
        exact ⟨hends.moves, hends.control.rests⟩
    | false =>
        rw [hpp, if_neg Bool.false_ne_true] at hphase
        rw [hstay (by rw [hphase]; decide)]
        refine ⟨.stay _, fun _ _ hb => ?_⟩
        change applied.phase.buffersLiveData = true at hb
        rw [hphase] at hb
        cases hb
  · rw [hstay (by rw [hwaits]; decide)]
    exact ⟨hends.moves, hends.control.rests⟩

theorem completeSubscribe_moves {s : BarRoute} (hs : s.Settled) (hfresh : s.control.Fresh)
    (hmode : s.mode.enabled = false → s.initialPrefillPending = false) (hpending : s.entryPhase = .pending)
    (replay : Option StreamStatus) (clock : RouteClock) :
    Drives (Moves attempts) { s with entryPhase := .active } (s.completeSubscribe replay clock).1
        (s.completeSubscribe replay clock).2 ∧
      (s.completeSubscribe replay clock).1.control.Rests := by
  obtain ⟨hf, hr, hphase⟩ := hfresh hpending
  have hs' : ({ s with entryPhase := .active } : BarRoute).Settled := ⟨hs.held, hs.prefills⟩
  unfold completeSubscribe
  rw [if_neg (by simp [hpending])]
  generalize hs₁ : ({ s with entryPhase := .active } : BarRoute) = s₁ at hs' ⊢
  have hactive : s₁.entryPhase = .active := by rw [← hs₁]
  have hf₁ : s₁.requestInFlight = false := by rw [← hs₁]; exact hf
  have hr₁ : s₁.retryRequest = none := by rw [← hs₁]; exact hr
  have hphase₁ : s₁.phase = if s₁.initialPrefillPending then .prefilling else .live := by
    rw [← hs₁]
    exact hphase
  have hmode₁ : s₁.mode.enabled = false → s₁.initialPrefillPending = false := by rw [← hs₁]; exact hmode
  obtain ⟨h1, h2, h3⟩ := s₁.replayStatus_cases replay (by rw [hphase₁]; split <;> decide)
  obtain ⟨h4, h5⟩ := prefill_moves hs' hactive hf₁ hr₁ hphase₁ hmode₁ h3 clock
  have hnone : ∀ s₂ : BarRoute, s₂.startWork none clock = (s₂, []) := fun _ => rfl
  dsimp only
  rw [h2, hnone]
  exact ⟨((h4.append (s₁.sentOf_replay replay)).append h1).append rfl, h5⟩

/-- What a route keeps through all its events, with the completions `extra` that have come and are not handled
yet, and the requests that were ever sent. -/
structure Orderly (s : BarRoute) (extra : List (Sent PendingContinuityRequest))
    (sent : List PendingContinuityRequest) : Prop where
  sound : Control.Sound attempts s.control (s.unfinished ++ extra) sent
  fresh : s.control.Fresh
  grid : 0 < s.control.gridMs

theorem Orderly.settled {s : BarRoute} {extra sent} (h : s.Orderly extra sent) : s.Settled :=
  ⟨h.sound.held, fun hp => of_decide_eq_true (h.sound.prefills hp)⟩

/-- Every event but a completion makes moves, once the entry has its phase. -/
theorem step_moves {s : BarRoute} {extra sent} (h : s.Orderly extra sent) {e : Event}
    (he : ∀ id result clock, e ≠ .history id result clock) :
    ∃ entry, Drives (Moves attempts) { s with entryPhase := entry } (s.step e).1 (s.step e).2 ∧
      (s.control.Rests → (s.step e).1.control.Rests) ∧ (s.step e).1.control.Fresh ∧
      (s.control.Served s.unfinished → ({ s.control with entry } : Control _).Served s.unfinished) := by
  have hsettled := h.settled
  have hretry : s.retryRequest = none ∨ s.phase.buffersLiveData = true := by
    cases hr : s.retryRequest with
    | none => exact .inl rfl
    | some p =>
        right
        rcases hsettled.held (by rw [hr]; rfl) with hp | hp
        · rw [hp]
          rfl
        · rw [hp]
          rfl
  -- an event that leaves a route alone unless it is active
  have hmoves : ∀ r : BarRoute × List BarNotice, Drives (Moves attempts) s r.1 r.2 →
      (s.entryPhase ≠ .active → r = (s, [])) →
      ∃ entry, Drives (Moves attempts) { s with entryPhase := entry } r.1 r.2 ∧
        (s.control.Rests → r.1.control.Rests) ∧ r.1.control.Fresh ∧
        (s.control.Served s.unfinished → ({ s.control with entry } : Control _).Served s.unfinished) := by
    intro r hd hstay
    refine ⟨s.entryPhase, hd, hd.control.rests, fun hp => ?_, id⟩
    have hentry : s.entryPhase = .pending := hd.control.entry.symm.trans hp
    rw [hstay (by rw [hentry]; decide)] at hp ⊢
    exact h.fresh hp
  cases e with
  | subscribed replay clock =>
      by_cases hp : s.entryPhase = .pending
      · have hmode : s.mode.enabled = false → s.initialPrefillPending = false :=
          fun hm => (h.sound.disabled hm).2.1
        obtain ⟨h1, h2⟩ := completeSubscribe_moves hsettled h.fresh hmode hp replay clock
        refine ⟨.active, h1, fun _ => h2, fun hpending => ?_, fun _ _ hf => ?_⟩
        · have hentry := h1.control.entry.symm.trans hpending
          cases hentry
        · rw [show s.control.inFlight = false from (h.fresh hp).1] at hf
          cases hf
      · have hstay : s.completeSubscribe replay clock = (s, []) := by
          unfold completeSubscribe
          rw [if_pos (by simpa using hp)]
        refine ⟨s.entryPhase, ?_, ?_, ?_, id⟩
        · simp only [step, hstay]
          exact .stay s
        · simp only [step, hstay]
          exact id
        · simp only [step, hstay]
          exact h.fresh
  | bars batch =>
      refine hmoves _ (routeBars_moves batch hretry) fun hn => ?_
      have hroute : s.routeBarToEntry batch false true 0 = { route := s } := by
        unfold routeBarToEntry
        rw [if_pos (by simp [active, hn])]
      simp only [step, routeBars, hroute, List.append_nil]
  | status status clock =>
      refine hmoves _ (routeStatus_moves hsettled status clock) fun hn => ?_
      exact if_pos (by simp [active, hn])
  | history id result clock => exact absurd rfl (he id result clock)
  | process clock =>
      refine hmoves _ (s.process_moves clock) fun hn => ?_
      exact if_pos (by simp [active, hn])
  | unsubscribe =>
      exact ⟨.unsubscribing, .stay _, fun _ ha => (by cases ha), fun hp => (by cases hp),
        fun _ ha => (by cases ha)⟩
  | subscriberGone =>
      exact ⟨s.entryPhase, .of_eq rfl rfl rfl, id, h.fresh, id⟩

theorem completeContinuity_stale {s : BarRoute} {operation : ContinuityOperation}
    (h : s.current operation = false) (result : BarHistoryResult) (clock : RouteClock) :
    s.completeContinuity operation result clock = (s, []) := by
  unfold completeContinuity
  rw [if_pos (by rw [h]; rfl)]

theorem Orderly.step {s : BarRoute} {extra sent} (h : s.Orderly extra sent) {e : Event}
    (he : ∀ id result clock, e ≠ .history id result clock) :
    (s.step e).1.Orderly extra (sent ++ (sentOf (s.step e).2).map (·.pending)) := by
  obtain ⟨entry, hd, -, hfresh, -⟩ := step_moves h he
  have hs := (h.sound.enter entry).moves hd.control
  refine ⟨hs.of_subperm ?_, hfresh, ?_⟩
  · rw [hd.unfinished, List.append_assoc, List.append_assoc]
    exact (List.perm_append_comm.append_left _).subperm
  · rw [hd.control.gridMs]
    exact h.grid

theorem Orderly.step_carries {s : BarRoute} {extra sent} (h : s.Orderly extra sent) {e : Event}
    (he : ∀ id result clock, e ≠ .history id result clock) :
    (s.step e).1.unfinished = s.unfinished ++ sentOf (s.step e).2 ∧
      Control.Carries s.control (sentOf (s.step e).2) (s.step e).1.control := by
  obtain ⟨entry, hd, -⟩ := step_moves h he
  have hcarries := hd.control.carries
  exact ⟨hd.unfinished, hcarries.next, hcarries.ids, hcarries.maxAttempts, hcarries.disabled⟩

/-- The completion of an operation, whether it still counts or not. -/
theorem Orderly.complete {s : BarRoute} {operation : ContinuityOperation} {extra sent}
    (h : s.Orderly (sentOperation operation :: extra) sent) (result : BarHistoryResult) (clock : RouteClock) :
    let r := s.completeContinuity operation result clock
    r.1.Orderly extra (sent ++ (sentOf r.2).map (·.pending)) ∧
      (r.1.unfinished = s.unfinished ++ sentOf r.2 ∧ Control.Carries s.control (sentOf r.2) r.1.control) ∧
      (s.current operation = true → r.1.control.Served r.1.unfinished ∧
        (¬ s.Stalls operation.pending (s.judge operation.pending result) → r.1.control.Rests)) := by
  dsimp only
  have hsub : (s.unfinished ++ extra).Sublist (s.unfinished ++ sentOperation operation :: extra) :=
    (List.sublist_cons_self _ _).append_left _
  cases hcurrent : s.current operation with
  | false =>
      rw [completeContinuity_stale hcurrent]
      refine ⟨⟨?_, h.fresh, h.grid⟩, ⟨(List.append_nil _).symm, .refl _⟩, fun hc => by cases hc⟩
      rw [sentOf_nil, List.map_nil, List.append_nil]
      exact h.sound.of_subperm hsub.subperm
  | true =>
      have hcur := hcurrent
      simp only [current, Bool.and_eq_true, beq_iff_eq] at hcur
      obtain ⟨⟨hactive, hf⟩, hg⟩ := hcur
      have hmem : sentOperation operation ∈ s.unfinished ++ sentOperation operation :: extra :=
        List.mem_append_right _ List.mem_cons_self
      have hid : ∀ o ∈ s.unfinished ++ extra, o.id ≠ (sentOperation operation).id := by
        have hn := h.sound.nodup
        rw [List.map_append, List.map_cons, List.nodup_middle, List.nodup_cons, ← List.map_append] at hn
        exact fun o ho heq => hn.1 (List.mem_map.mpr ⟨o, ho, heq⟩)
      have hr : s.retryRequest = none := by
        cases hr : s.retryRequest with
        | none => rfl
        | some p => exact absurd (h.sound.retry p hr).1 (by rw [show s.control.inFlight = true from hf]; decide)
      have he : s.mode.enabled = true := by
        cases hm : s.mode.enabled with
        | true => rfl
        | false => exact absurd (h.sound.disabled hm).1 (by rw [show s.control.inFlight = true from hf]; decide)
      have htf : 0 < s.timeframe := by
        have hgrid := h.grid
        change 0 < s.timeframe * 1000 at hgrid
        omega
      have hentry : s.entryPhase = .active := by simpa [active] using hactive
      have henabled : ¬ s.mode.enabled = false := by
        rw [he]
        exact fun h => by cases h
      have hperm : ∀ ops : List (Sent PendingContinuityRequest),
          (s.unfinished ++ ops ++ extra).Perm (s.unfinished ++ extra ++ ops) := by
        intro ops
        rw [List.append_assoc, List.append_assoc]
        exact List.perm_append_comm.append_left _
      rcases completeContinuity_cases hcurrent hr he htf result clock with
        ⟨hu, hn, hlt, phase, hphase, hc⟩ | ⟨hu, prefillPending, hpp, hnext⟩
      · have hpp : s.initialPrefillPending = true → s.control.prefillPending = true := id
        obtain ⟨hs, hlast⟩ := h.sound.finish hf hmem hg.symm .flushing hpp hsub hid
        have hs' := hs.later rfl he hlast hlt hphase
        refine ⟨⟨?_, ?_, ?_⟩, ⟨by rw [hu, hn, List.append_nil], ?_⟩, fun _ => ⟨?_, fun _ => ?_⟩⟩
        · rw [hc, hu, hn, List.map_nil, List.append_nil]
          exact hs'
        · rw [hc]
          exact fun hp => absurd (hentry.symm.trans hp) (by decide)
        · rw [hc]
          exact h.grid
        · rw [hn, hc]
          exact .silent rfl rfl fun hd => absurd hd henabled
        · rw [hc]
          exact fun _ hf' => by cases hf'
        · rw [hc]
          exact fun _ _ _ => ⟨Control.requests_ne hphase, .inr (.inl rfl)⟩
      · obtain ⟨hs, -⟩ := h.sound.finish hf hmem hg.symm .flushing hpp hsub hid
        rcases hnext with hends | ⟨hc, hn, hstalls⟩
        · have hcarries := hends.moves.carries
          refine ⟨⟨?_, fun hp => ?_, ?_⟩, ⟨hu, hcarries.next, hcarries.ids, hcarries.maxAttempts,
            fun hd => absurd hd henabled⟩, fun _ => ⟨?_, fun _ => hends.rests⟩⟩
          · have hs' := hs.moves hends.moves
            rw [hu]
            exact hs'.of_subperm (hperm _).subperm
          · exact absurd ((hends.moves.entry.trans hentry).symm.trans hp) (by decide)
          · rw [hends.moves.gridMs]
            exact h.grid
          · have hserved : (Control.flushing s.control prefillPending).Served s.unfinished :=
              fun _ hf' => by cases hf'
            rw [hu]
            exact hserved.moves hends.moves
        · refine ⟨⟨?_, ?_, ?_⟩, ⟨hu, ?_⟩, fun _ => ⟨?_, fun hno => absurd hstalls hno⟩⟩
          · rw [hc, hu, hn, List.map_nil, List.append_nil, List.append_nil]
            exact hs
          · rw [hc]
            exact fun hp => absurd (hentry.symm.trans hp) (by decide)
          · rw [hc]
            exact h.grid
          · rw [hn, hc]
            exact .silent rfl rfl fun hd => absurd hd henabled
          · rw [hc]
            exact fun _ hf' => by cases hf'

/-- The provider has answered the operation `id`. -/
def answered (s : BarRoute) (id : Nat) : BarRoute := { s with operations := s.operations.filter (·.id != id) }

/-- An operation leaves the provider when its first answer comes. -/
theorem Orderly.arrive {s : BarRoute} {extra sent} (h : s.Orderly extra sent) {operation : ContinuityOperation}
    (hop : operation ∈ s.operations) :
    (s.answered operation.id).Orderly (sentOperation operation :: extra) sent := by
  refine ⟨h.sound.of_subperm ?_, h.fresh, h.grid⟩
  have hn := h.sound.nodup
  rw [List.map_append, List.nodup_append] at hn
  have hsub : ((s.operations.filter (·.id != operation.id)).map sentOperation).Sublist s.unfinished :=
    List.filter_sublist.map _
  have hperm : ((s.operations.filter (·.id != operation.id)).map sentOperation ++
      [sentOperation operation]).Subperm s.unfinished := by
    refine List.Nodup.subperm ?_ ?_
    · rw [List.nodup_append]
      refine ⟨(hn.1.of_map _).sublist hsub, List.nodup_singleton _, fun o ho o' ho' heq => ?_⟩
      obtain ⟨x, hx, rfl⟩ := List.mem_map.mp ho
      rw [List.mem_singleton.mp ho'] at heq
      have hne := (List.mem_filter.mp hx).2
      have hid : x.id = operation.id := congrArg Sent.id heq
      simp [hid] at hne
    · intro o ho
      rcases List.mem_append.mp ho with ho | ho
      · exact hsub.subset ho
      · rw [List.mem_singleton.mp ho]
        exact List.mem_map_of_mem hop
  have happ := (List.subperm_append_right extra).mpr hperm
  rwa [List.append_assoc] at happ

/-! ## Routes come to rest -/

/-- A usable answer that ends a chunk short of the target leaves room for the next one. -/
def Continues (s : BarRoute) : Event → Prop
  | .history id result _ => ∀ operation, s.operations.find? (·.id == id) = some operation →
      s.current operation = true → (s.judge operation.pending result).usable = true →
        s.HasRoom operation.pending
  | _ => True

instance (s : BarRoute) : DecidablePred s.Continues
  | .history id result _ => inferInstanceAs (Decidable (∀ operation ∈ s.operations.find? (·.id == id),
      s.current operation = true → (s.judge operation.pending result).usable = true →
        s.HasRoom operation.pending))
  | .subscribed .. | .bars _ | .status .. | .process _ | .unsubscribe | .subscriberGone => .isTrue trivial

/-- Between events a route is orderly, its request is with the provider, and it rests. -/
structure AtRest (s : BarRoute) (sent : List PendingContinuityRequest) : Prop where
  orderly : s.Orderly [] sent
  served : s.control.Served s.unfinished
  rests : s.control.Rests

/-- An answer that does not count leaves the request that does. -/
theorem AtRest.stale {s : BarRoute} {sent} (h : s.AtRest sent) {operation : ContinuityOperation}
    (hop : operation ∈ s.operations) (hcurrent : s.current operation = false) :
    (s.answered operation.id).control.Served (s.answered operation.id).unfinished := by
  intro hactive hf
  obtain ⟨o, ho, hg⟩ := h.served hactive hf
  obtain ⟨x, hx, rfl⟩ := List.mem_map.mp ho
  refine ⟨_, List.mem_map_of_mem (List.mem_filter.mpr ⟨hx, ?_⟩), hg⟩
  rw [bne_iff_ne]
  intro hid
  have hsame : sentOperation x = sentOperation operation :=
    List.inj_on_of_nodup_map h.orderly.sound.nodup (List.mem_append_left _ (List.mem_map_of_mem hx))
      (List.mem_append_left _ (List.mem_map_of_mem hop)) hid
  have hentry : s.entryPhase = .active := hactive
  have hflight : s.requestInFlight = true := hf
  have hgen : operation.generation = s.generation := (congrArg Sent.generation hsame).symm.trans hg
  simp [current, active, hentry, hflight, hgen] at hcurrent

theorem AtRest.step {s : BarRoute} {sent} (h : s.AtRest sent) {e : Event} (hc : s.Continues e) :
    ∃ sent', (s.step e).1.AtRest sent' := by
  by_cases he : ∃ id result clock, e = .history id result clock
  · obtain ⟨id, result, clock, rfl⟩ := he
    cases hop : s.operations.find? (·.id == id) with
    | none =>
        have hstay : s.step (.history id result clock) = (s, []) := by
          simp only [BarRoute.step, completeOperation, hop]
        rw [hstay]
        exact ⟨sent, h⟩
    | some operation =>
        have hmem := List.mem_of_find?_eq_some hop
        have hid : operation.id = id := by simpa using List.find?_some hop
        have hr : s.step (.history id result clock) =
            (s.answered operation.id).completeContinuity operation result clock := by
          simp only [BarRoute.step, completeOperation, hop, hid, answered]
        obtain ⟨h1, -, h2⟩ := (h.orderly.arrive hmem).complete result clock
        rw [hr]
        cases hcurrent : s.current operation with
        | true =>
            obtain ⟨h3, h4⟩ := h2 hcurrent
            exact ⟨_, h1, h3, h4 fun hs => hs.room (hc operation hop hcurrent hs.usable)⟩
        | false =>
            have hstay := completeContinuity_stale (s := s.answered operation.id) hcurrent result clock
            rw [hstay] at h1 ⊢
            exact ⟨_, h1, h.stale hmem hcurrent, h.rests⟩
  · have he : ∀ id result clock, e ≠ .history id result clock :=
      fun id result clock heq => he ⟨id, result, clock, heq⟩
    obtain ⟨entry, hd, hrests, -, hserved⟩ := step_moves h.orderly he
    refine ⟨_, h.orderly.step he, ?_, hrests h.rests⟩
    rw [hd.unfinished]
    exact (hserved h.served).moves hd.control

/-- A route that was accepted starts at rest. -/
theorem create_orderly (symbol : String) {timeframe : Nat} (htf : 0 < timeframe) (options : ContinuityOptions) :
    (create symbol timeframe options).Orderly [] [] where
  sound := {
    ids := fun o ho => by cases ho
    nodup := List.nodup_nil
    generations := fun o ho => by cases ho
    only := fun hf => by cases hf
    idle := fun _ _ o ho => by cases ho
    disabled := fun hd => ⟨rfl, Bool.and_eq_false_imp.mpr fun he => absurd he (by
      change options.mode.enabled = false at hd
      rw [hd]
      exact Bool.false_ne_true), rfl⟩
    retry := fun p hp => by cases hp
    held := fun hp => by cases hp
    prefills := fun hp => (Bool.and_eq_true_iff.mp hp).2
    budget := .nil
    good := fun p hp => by cases hp }
  fresh _ := ⟨rfl, rfl, rfl⟩
  grid := by
    change 0 < timeframe * 1000
    omega

theorem create_atRest (symbol : String) {timeframe : Nat} (htf : 0 < timeframe) (options : ContinuityOptions) :
    (create symbol timeframe options).AtRest [] where
  orderly := create_orderly symbol htf options
  served hactive := by cases hactive
  rests hactive := by cases hactive

end BarRoute

end OptionX.MarketData
