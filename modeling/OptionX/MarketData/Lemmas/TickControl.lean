import OptionX.MarketData.Control
import OptionX.MarketData.Lemmas.TickFrame
import OptionX.MarketData.Lemmas.TickRange

/-!
# The control of a tick route

Every function of a tick route makes moves of its control, as those of a bar route do. Recovery requests of a route
with a grid end on the grid, and all times stay within 64 bits.
-/

namespace OptionX.MarketData

namespace TickRoute

open Control (Move Moves Ends)

variable {P : Type}

/-- A recovery request ends on the grid. -/
def attempts (intervalMs : Nat) : Attempts PendingTickContinuityRequest where
  attempt p := p.attempt
  again p := { p with announceGap := false, attempt := p.attempt + 1 }
  good p := p.kind ≠ .prefill → 0 < intervalMs → intervalMs ∣ p.toTimeMs
  attempt_again _ := rfl
  good_again _ h := h

def control (s : TickRoute P) : Control PendingTickContinuityRequest where
  entry := s.entryPhase
  mode := s.mode
  prefills := 0 < s.prefillLookbackMs
  gridMs := s.historyIntervalMs
  maxAttempts := s.retry.maxAttempts
  phase := s.phase
  prefillPending := s.initialPrefillPending
  inFlight := s.requestInFlight
  generation := s.generation
  retry := s.retryRequest
  next := s.nextOperation

def sentOperation (o : TickContinuityOperation) : Sent PendingTickContinuityRequest :=
  ⟨o.id, o.pending, o.generation⟩

def unfinished (s : TickRoute P) : List (Sent PendingTickContinuityRequest) := s.operations.map sentOperation

def sentBy : TickNotice P → Option (Sent PendingTickContinuityRequest)
  | .request operation => some (sentOperation operation)
  | _ => none

/-- The requests among what a route sends. -/
def sentOf (ns : List (TickNotice P)) : List (Sent PendingTickContinuityRequest) := ns.filterMap sentBy

@[simp] theorem sentOf_nil : sentOf ([] : List (TickNotice P)) = [] := rfl
@[simp] theorem sentOf_append (ns ns' : List (TickNotice P)) : sentOf (ns ++ ns') = sentOf ns ++ sentOf ns' :=
  List.filterMap_append

@[simp] theorem sentOf_notifyContinuity (s : TickRoute P) (update : ContinuityUpdate) :
    sentOf (s.notifyContinuity update) = [] := by
  unfold notifyContinuity
  split <;> rfl

@[simp] theorem sentOf_deliverTicks (s : TickRoute P) (items : List (Tick P)) :
    sentOf (s.deliverTicks items) = [] := by
  unfold deliverTicks
  split <;> rfl

@[simp] theorem sentOf_routedStatus (s : TickRoute P) (status : StreamStatus) :
    sentOf (s.routedStatus status) = [] := by
  unfold routedStatus
  split <;> rfl

/-- The times of a route are 64-bit values. -/
structure Fits (s : TickRoute P) : Prop where
  observed : s.lastObservedTimeMs ≤ u64Max
  buffer : ∀ batch ∈ s.buffer, ∀ tick ∈ batch.items, tick.timeMs ≤ u64Max
  target : s.reconnectTargetTimeMs ≤ u64Max
  boundary : s.initialPrefillBoundaryTimeMs ≤ u64Max

/-- A step between two states whose controls are related by `T`. -/
structure Drives (T : Control PendingTickContinuityRequest → List (Sent PendingTickContinuityRequest) →
    Control PendingTickContinuityRequest → Prop) (s s' : TickRoute P) (ns : List (TickNotice P)) : Prop where
  control : T s.control (sentOf ns) s'.control
  unfinished : s'.unfinished = s.unfinished ++ sentOf ns
  fits : s.Fits → s'.Fits

section

variable {s s' s'' : TickRoute P} {ns ns' : List (TickNotice P)} {A : Attempts PendingTickContinuityRequest}

theorem Drives.trans (h : Drives (Moves A) s s' ns) (h' : Drives (Moves A) s' s'' ns') :
    Drives (Moves A) s s'' (ns ++ ns') where
  control := by
    rw [sentOf_append]
    exact h.control.trans h'.control
  unfinished := by rw [h'.unfinished, h.unfinished, sentOf_append, List.append_assoc]
  fits hf := h'.fits (h.fits hf)

theorem Drives.ends (h : Drives (Moves A) s s' ns) (h' : Drives (Ends A) s' s'' ns') :
    Drives (Ends A) s s'' (ns ++ ns') where
  control := by
    rw [sentOf_append]
    exact h.control.ends h'.control
  unfinished := by rw [h'.unfinished, h.unfinished, sentOf_append, List.append_assoc]
  fits hf := h'.fits (h.fits hf)

theorem Drives.moves (h : Drives (Ends A) s s' ns) : Drives (Moves A) s s' ns :=
  ⟨h.control.moves, h.unfinished, h.fits⟩

theorem Drives.of_move (hm : Move A s.control [] s'.control) (hu : s'.unfinished = s.unfinished)
    (hf : s.Fits → s'.Fits) (hn : sentOf ns = []) : Drives (Ends A) s s' ns where
  control := by
    rw [hn]
    exact hm.ends
  unfinished := by rw [hn, hu, List.append_nil]
  fits := hf

theorem Drives.of_eq (hc : s'.control = s.control) (hu : s'.unfinished = s.unfinished) (hf : s.Fits → s'.Fits)
    (hn : sentOf ns = []) : Drives (Moves A) s s' ns where
  control := by
    rw [hn, hc]
    exact .refl _
  unfinished := by rw [hn, hu, List.append_nil]
  fits := hf

theorem Drives.stay (s : TickRoute P) : Drives (Moves A) s s [] := .of_eq rfl rfl id rfl

/-- What is sent before a step and holds no request does not count. -/
theorem Drives.prepend {T} (h : Drives T s s' ns) (hn : sentOf ns' = []) : Drives T s s' (ns' ++ ns) where
  control := by
    rw [sentOf_append, hn]
    exact h.control
  unfinished := by
    rw [sentOf_append, hn]
    exact h.unfinished
  fits := h.fits

theorem Drives.append {T} (h : Drives T s s' ns) (hn : sentOf ns' = []) : Drives T s s' (ns ++ ns') where
  control := by
    rw [sentOf_append, hn, List.append_nil]
    exact h.control
  unfinished := by
    rw [sentOf_append, hn, List.append_nil]
    exact h.unfinished
  fits := h.fits

/-- A step from a state with the same control and operations. -/
theorem Drives.of_same {T} (h : Drives T s' s'' ns) (hc : s'.control = s.control)
    (hu : s'.unfinished = s.unfinished) (hf : s.Fits → s'.Fits) : Drives T s s'' ns where
  control := hc ▸ h.control
  unfinished := hu ▸ h.unfinished
  fits hs := h.fits (hf hs)

end

/-! ## Requests -/

theorem requestContinuityHistory_sent {s : TickRoute P} (hactive : s.entryPhase = .active)
    (hflight : s.requestInFlight = true) (pending : PendingTickContinuityRequest) :
    (s.requestContinuityHistory pending).1 = { s with
      operations := s.operations ++ [⟨s.nextOperation, pending, s.generation⟩]
      nextOperation := s.nextOperation + 1 } ∧
      sentOf (s.requestContinuityHistory pending).2 = [s.control.send pending] := by
  unfold requestContinuityHistory
  rw [if_neg (by simp [active, hactive, hflight])]
  refine ⟨rfl, ?_⟩
  dsimp only
  rw [sentOf_append]
  have hquiet : ∀ ns : List (TickNotice P), sentOf ns = [] →
      sentOf ns ++ sentOf [TickNotice.request (P := P) ⟨s.nextOperation, pending, s.generation⟩] =
        [s.control.send pending] := by
    intro ns hns
    rw [hns]
    rfl
  refine hquiet _ ?_
  cases pending.kind with
  | prefill => rfl
  | gapBackfill =>
      dsimp only
      split <;> simp
  | reconnectBackfill => simp

/-- A first attempt goes out from `s`, prepared in `s₀`. -/
theorem request_ends {s : TickRoute P} (s₀ : TickRoute P) {pending : PendingTickContinuityRequest}
    {phase : ContinuityPhase} {A : Attempts PendingTickContinuityRequest}
    (hphase : phase = .prefilling ∨ phase = .recovering)
    (hc : s₀.control = { s.control with phase, inFlight := true }) (hu : s₀.unfinished = s.unfinished)
    (hfits : s.Fits → s₀.Fits)
    (hactive : s.entryPhase = .active) (he : s.mode.enabled = true) (hf : s.requestInFlight = false)
    (hr : s.retryRequest = none) (hp : A.attempt pending = 1) (hgood : A.good pending) :
    Drives (Ends A) s (s₀.requestContinuityHistory pending).1 (s₀.requestContinuityHistory pending).2 := by
  have hactive₀ : s₀.entryPhase = .active := (congrArg Control.entry hc).trans hactive
  have hsend : s₀.control.send pending = s.control.send pending := by
    rw [hc]
    rfl
  have hnext : s₀.nextOperation = s.nextOperation := congrArg Control.next hc
  obtain ⟨h1, h2⟩ := requestContinuityHistory_sent hactive₀ (congrArg Control.inFlight hc) pending
  refine ⟨?_, ?_, fun hs => ?_⟩
  · have hafter : (s₀.requestContinuityHistory pending).1.control =
        { s₀.control with next := s₀.nextOperation + 1 } := by
      rw [h1]
      rfl
    rw [hafter, h2, hsend, hc, hnext]
    exact (Move.request hphase hactive he hf hr hp hgood).ends
  · rw [h1, h2, ← hu]
    exact List.map_append
  · rw [h1]
    exact ⟨(hfits hs).observed, (hfits hs).buffer, (hfits hs).target, (hfits hs).boundary⟩

/-! ## Progress leaves the control alone -/

theorem Fits.progress [BEq P] {s : TickRoute P} (h : s.Fits) {ticks : List (Tick P)}
    (ht : ∀ tick ∈ ticks, tick.timeMs ≤ u64Max) : (s.recordTickProgress ticks).Fits := by
  obtain ⟨w, d, o, hp⟩ := s.recordTickProgress_eq ticks
  rw [hp]
  refine ⟨latestOf_le h.observed fun time hm => ?_, h.buffer, h.target, h.boundary⟩
  obtain ⟨tick, hmem, rfl⟩ := List.mem_map.mp hm
  exact ht tick hmem

theorem recordTickProgress_control [BEq P] (s : TickRoute P) (ticks : List (Tick P)) :
    (s.recordTickProgress ticks).control = s.control ∧
      (s.recordTickProgress ticks).operations = s.operations ∧
      (s.recordTickProgress ticks).buffer = s.buffer := by
  obtain ⟨w, d, o, hp⟩ := s.recordTickProgress_eq ticks
  rw [hp]
  exact ⟨rfl, rfl, rfl⟩

theorem markUnverified_control (s : TickRoute P) (fromTimeMs : Nat) :
    (s.markUnverified fromTimeMs).control = s.control ∧
      (s.markUnverified fromTimeMs).operations = s.operations ∧
      (s.Fits → (s.markUnverified fromTimeMs).Fits) := by
  rw [markUnverified_eq]
  exact ⟨rfl, rfl, fun h => ⟨h.observed, h.buffer, h.target, h.boundary⟩⟩

theorem unfinished_congr {s s' : TickRoute P} (h : s'.operations = s.operations) :
    s'.unfinished = s.unfinished := by
  rw [unfinished, h, unfinished]

variable [BEq P]

theorem releaseBuffer_control (s : TickRoute P) (batches : List (TickDataBatch P)) :
    (s.releaseBuffer batches).1.control = s.control ∧ (s.releaseBuffer batches).1.operations = s.operations ∧
      sentOf (s.releaseBuffer batches).2 = [] ∧
      (s.Fits → (∀ batch ∈ batches, ∀ tick ∈ batch.items, tick.timeMs ≤ u64Max) →
        (s.releaseBuffer batches).1.Fits) := by
  induction batches generalizing s with
  | nil => exact ⟨rfl, rfl, rfl, fun h _ => h⟩
  | cons batch batches ih =>
      obtain ⟨h1, h2, h3, h4⟩ := ih (s.recordTickProgress batch.items)
      obtain ⟨h5, h6, -⟩ := s.recordTickProgress_control batch.items
      refine ⟨h1.trans h5, h2.trans h6, ?_, fun hs hb => ?_⟩
      · simp only [releaseBuffer, sentOf_append, sentOf_deliverTicks, List.nil_append]
        exact h3
      · exact h4 (hs.progress (hb batch List.mem_cons_self)) fun b hm => hb b (List.mem_cons_of_mem _ hm)

/-! ## Live ticks -/

/-- What is sent while routing holds no request. -/
def Routed.Silent (r : Routed P) : Prop := sentOf r.continuity = [] ∧ sentOf r.deliveries = []

theorem bufferContinuityBatch_control (s : TickRoute P) (batch : TickDataBatch P) (pushFront : Bool)
    {A : Attempts PendingTickContinuityRequest} :
    Routed.Silent (s.bufferContinuityBatch batch pushFront).2 ∧
      (s.bufferContinuityBatch batch pushFront).2.request = none ∧
      (s.bufferContinuityBatch batch pushFront).2.route.operations = s.operations ∧
      (s.Fits → (∀ tick ∈ batch.items, tick.timeMs ≤ u64Max) →
        (s.bufferContinuityBatch batch pushFront).2.route.Fits) ∧
      if (s.bufferContinuityBatch batch pushFront).1 = true then
        (s.bufferContinuityBatch batch pushFront).2.route.control = s.control
      else (s.bufferContinuityBatch batch pushFront).2.route.buffer = [] ∧
        Move A s.control [] (s.bufferContinuityBatch batch pushFront).2.route.control := by
  have hitems : (∀ tick ∈ batch.items, tick.timeMs ≤ u64Max) →
      ∀ tick ∈ batch.items.map caughtUp, tick.timeMs ≤ u64Max := by
    intro hb tick ht
    obtain ⟨t, hmem, rfl⟩ := List.mem_map.mp ht
    exact hb t hmem
  unfold bufferContinuityBatch
  dsimp only
  split
  · refine ⟨⟨rfl, rfl⟩, rfl, rfl, fun hs hb => ⟨hs.observed, fun b hm => ?_, hs.target, hs.boundary⟩, rfl⟩
    have hm : b = { batch with items := batch.items.map caughtUp } ∨ b ∈ s.buffer := by
      dsimp only at hm
      split at hm
      · exact List.mem_cons.mp hm
      · exact (List.mem_append.mp hm).symm.imp List.mem_singleton.mp id
    rcases hm with rfl | hm
    · exact hitems hb
    · exact hs.buffer b hm
  · obtain ⟨h1, h2, h3, h4⟩ := s.releaseBuffer_control s.buffer
    obtain ⟨h5, h6, -⟩ := (s.releaseBuffer s.buffer).1.recordTickProgress_control (batch.items.map caughtUp)
    refine ⟨⟨rfl, ?_⟩, rfl, h6.trans h2, fun hs hb => ?_, ?_⟩
    · rw [sentOf_append, h3, sentOf_deliverTicks, List.nil_append]
    · have hf := (h4 hs hs.buffer).progress (hitems hb)
      exact ⟨hf.observed, fun b hm => (by cases hm), Nat.zero_le _, hf.boundary⟩
    · have hm := Move.overflow (A := A) s.control
      rw [← h1, ← h5] at hm
      rw [if_neg Bool.false_ne_true, ← h1, ← h5]
      exact ⟨rfl, hm⟩

/-- Routing a batch makes moves, or prepares a request. -/
structure Routed.Turns (s : TickRoute P) (r : Routed P) : Prop where
  silent : r.Silent
  operations : r.route.operations = s.operations
  fits : s.Fits → r.route.Fits
  route : (r.request = none ∧ Moves (attempts s.historyIntervalMs) s.control [] r.route.control) ∨
    ∃ pending, r.request = some pending ∧ pending.attempt = 1 ∧
      (attempts s.historyIntervalMs).good pending ∧
      r.route.control = { s.control with phase := .recovering, inFlight := true }

omit [BEq P] in
theorem gapRequest_good {s : TickRoute P} {previousTimeMs tickTimeMs : Nat}
    {pending : PendingTickContinuityRequest} (h : s.gapRequest previousTimeMs tickTimeMs = some pending) :
    pending.attempt = 1 ∧ (attempts s.historyIntervalMs).good pending := by
  unfold gapRequest at h
  dsimp only at h
  split at h
  · cases h
  · cases h
    exact ⟨rfl, fun _ hpos => firstTickHistoryToTimeMs_dvd _ _ hpos (alignTickHistoryTimeMs_dvd _ _ hpos)⟩

theorem recoverGap_turns (s : TickRoute P) (batch : TickDataBatch P) (processBuffered : Bool)
    {gap : List (Tick P) × Nat × Tick P × List (Tick P)}
    (ht : ∀ tick ∈ gap.1 ++ gap.2.2.1 :: gap.2.2.2, tick.timeMs ≤ u64Max) :
    Routed.Turns s (s.recoverGap batch processBuffered gap) := by
  have hbefore : ∀ tick ∈ gap.1, tick.timeMs ≤ u64Max := fun t hm => ht t (List.mem_append_left _ hm)
  have hheld : ∀ tick ∈ gap.2.2.1 :: gap.2.2.2, tick.timeMs ≤ u64Max :=
    fun t hm => ht t (List.mem_append_right _ hm)
  unfold recoverGap
  split
  · exact ⟨⟨rfl, rfl⟩, rfl, id, .inl ⟨rfl, .refl _⟩⟩
  rename_i pending hp
  obtain ⟨hattempt, hgood⟩ := gapRequest_good hp
  dsimp only
  have hprogress : ∃ s₁ : TickRoute P, (if gap.1.isEmpty then s else s.recordTickProgress gap.1) = s₁ ∧
      s₁.control = s.control ∧ s₁.operations = s.operations ∧ (s.Fits → s₁.Fits) := by
    split
    · exact ⟨s, rfl, rfl, rfl, id⟩
    · obtain ⟨h1, h2, -⟩ := s.recordTickProgress_control gap.1
      exact ⟨_, rfl, h1, h2, fun hs => hs.progress hbefore⟩
  obtain ⟨s₁, hs₁, h1, h2, h3⟩ := hprogress
  rw [hs₁]
  obtain ⟨⟨h4, h5⟩, h6, h7, h8, h9⟩ := s₁.bufferContinuityBatch_control
    { batch with items := gap.2.2.1 :: gap.2.2.2 } processBuffered (A := attempts s.historyIntervalMs)
  generalize s₁.bufferContinuityBatch { batch with items := gap.2.2.1 :: gap.2.2.2 } processBuffered = held at *
  have hdelivered : sentOf (if gap.1.isEmpty then [] else s.deliverTicks gap.1) = [] := by
    split
    · rfl
    · exact s.sentOf_deliverTicks gap.1
  split
  · rename_i hno
    rw [Bool.not_eq_true'] at hno
    rw [if_neg (by rw [hno]; exact Bool.false_ne_true), h1] at h9
    refine ⟨⟨h4, ?_⟩, h7.trans h2, fun hs => h8 (h3 hs) hheld, .inl ⟨h6, h9.2.moves⟩⟩
    rw [sentOf_append, hdelivered, h5, List.nil_append]
  · rename_i hyes
    rw [if_pos (by simpa using hyes)] at h9
    obtain ⟨h10, h11, h12⟩ := held.2.route.markUnverified_control pending.fromTimeMs
    refine ⟨⟨rfl, hdelivered⟩, h11.trans (h7.trans h2), fun hs => ?_, .inr ⟨pending, rfl, hattempt, hgood, ?_⟩⟩
    · have hf := h12 (h8 (h3 hs) hheld)
      exact ⟨hf.observed, hf.buffer, hheld _ List.mem_cons_self, hf.boundary⟩
    · rw [← h1, ← h9, ← h10]
      rfl

omit [BEq P] in
theorem enabled_of_recoversGaps {mode : ContinuityMode} (h : mode.recoversGaps = true) : mode.enabled = true := by
  cases mode with
  | liveOnly => cases h
  | prefill => rfl
  | prefillAndRecover => rfl

/-- A request is prepared only by a route that is active, recovers gaps and has no request in flight. -/
theorem routeTickToEntry_turns (s : TickRoute P) {batch : TickDataBatch P}
    (ht : ∀ tick ∈ batch.items, tick.timeMs ≤ u64Max) (processBuffered allowGapRecovery : Bool) :
    let r := s.routeTickToEntry batch processBuffered allowGapRecovery
    Routed.Turns s r ∧ (r.request.isSome = true → s.entryPhase = .active ∧ s.mode.enabled = true ∧
      s.requestInFlight = false ∧ (processBuffered = false → s.phase.buffersLiveData = false)) ∧
      (r.request = none → processBuffered = true → r.route.buffer = s.buffer ∨ r.route.buffer = []) := by
  intro r
  have hstay : Routed.Turns s { route := s } := ⟨⟨rfl, rfl⟩, rfl, id, .inl ⟨rfl, .refl _⟩⟩
  simp only [r]
  unfold routeTickToEntry
  split
  · exact ⟨hstay, fun h => (by cases h), fun _ _ => .inl rfl⟩
  rename_i hguard
  dsimp only
  have hitems : ∀ tick ∈ batch.items.map
      (fun tick => { tick with flags := tick.flags.markLive processBuffered }), tick.timeMs ≤ u64Max := by
    intro tick hm
    obtain ⟨t, hmem, rfl⟩ := List.mem_map.mp hm
    exact ht t hmem
  generalize batch.items.map (fun tick => { tick with flags := tick.flags.markLive processBuffered }) = items
    at hitems ⊢
  split
  · rename_i hbuffers
    simp only [Bool.and_eq_true, Bool.not_eq_true'] at hbuffers
    obtain ⟨h1, h2, h3, h4, h5⟩ := s.bufferContinuityBatch_control { batch with items } false
      (A := attempts s.historyIntervalMs)
    refine ⟨⟨h1, h3, fun hs => h4 hs hitems, .inl ⟨h2, ?_⟩⟩, fun h => (by rw [h2] at h; cases h),
      fun _ hp => (by rw [hp] at hbuffers; cases hbuffers.1.2)⟩
    split at h5
    · rw [h5]
      exact .refl _
    · exact h5.2.moves
  rename_i hbuffers
  cases hgap : (if allowGapRecovery && s.mode.recoversGaps && !s.requestInFlight && 0 < s.expectedIntervalMs &&
      0 < s.lastObservedTimeMs then findTickGap s.expectedIntervalMs s.lastObservedTimeMs items else none) with
  | none =>
      obtain ⟨h1, h2, h3⟩ := s.recordTickProgress_control items
      refine ⟨⟨⟨rfl, s.sentOf_deliverTicks items⟩, h2, fun hs => hs.progress hitems, .inl ⟨rfl, ?_⟩⟩,
        fun h => (by cases h), fun _ _ => .inl h3⟩
      exact h1 ▸ .refl _
  | some gap =>
      have hg : (s.mode.recoversGaps && !s.requestInFlight) = true ∧
          findTickGap s.expectedIntervalMs s.lastObservedTimeMs items = some gap := by
        split at hgap
        · rename_i hc
          simp only [Bool.and_eq_true] at hc ⊢
          exact ⟨⟨hc.1.1.1.2, hc.1.1.2⟩, hgap⟩
        · cases hgap
      obtain ⟨hrecovers, hfind⟩ := hg
      simp only [Bool.and_eq_true, Bool.not_eq_true'] at hrecovers
      have hsplit := findTickGap_eq hfind
      rw [hsplit] at hitems
      have he := enabled_of_recoversGaps hrecovers.1
      refine ⟨s.recoverGap_turns _ _ hitems, fun _ => ⟨?_, he, hrecovers.2, fun hp => ?_⟩, fun hnone hp => ?_⟩
      · simp only [Bool.or_eq_true, Bool.not_eq_true', not_or, Bool.not_eq_false] at hguard
        simpa [active] using hguard.1.1.1
      · simpa [he, hp] using hbuffers
      · dsimp only at hnone ⊢
        unfold recoverGap at hnone ⊢
        split at hnone
        · exact .inl rfl
        dsimp only at hnone ⊢
        generalize (if gap.1.isEmpty then s else s.recordTickProgress gap.1) = s₁ at hnone ⊢
        split at hnone
        · rename_i hover
          rw [if_pos hover]
          obtain ⟨-, -, -, -, h5⟩ := s₁.bufferContinuityBatch_control
            { batch with items := gap.2.2.1 :: gap.2.2.2 } processBuffered (A := attempts s.historyIntervalMs)
          rw [if_neg (by simpa using hover)] at h5
          exact .inr h5.1
        · cases hnone

omit [BEq P] in
/-- A routed batch whose request, if it has one, is sent at once. -/
theorem Routed.Turns.request {s : TickRoute P} {r : Routed P} (h : r.Turns s)
    {pending : PendingTickContinuityRequest}
    (hr : r.request = some pending) (hs : s.entryPhase = .active ∧ s.mode.enabled = true ∧
      s.requestInFlight = false) (hretry : s.retryRequest = none) :
    Drives (Ends (attempts s.historyIntervalMs)) s (r.route.requestContinuityHistory pending).1
      (r.continuity ++ r.deliveries ++ (r.route.requestContinuityHistory pending).2) := by
  have hsilent : sentOf (r.continuity ++ r.deliveries) = [] := by
    rw [sentOf_append, h.silent.1, h.silent.2, List.nil_append]
  rcases h.route with ⟨hnone, -⟩ | ⟨p, hp, hattempt, hgood, hc⟩
  · rw [hnone] at hr
    cases hr
  · rw [hr] at hp
    cases hp
    exact (request_ends _ (.inr rfl) hc (unfinished_congr h.operations) h.fits hs.1 hs.2.1 hs.2.2 hretry hattempt
      hgood).prepend hsilent

omit [BEq P] in
/-- A routed batch without a request. -/
theorem Routed.Turns.moves {s : TickRoute P} {r : Routed P} (h : r.Turns s) (hr : r.request = none) :
    Drives (Moves (attempts s.historyIntervalMs)) s r.route (r.continuity ++ r.deliveries) := by
  have hsilent : sentOf (r.continuity ++ r.deliveries) = [] := by
    rw [sentOf_append, h.silent.1, h.silent.2, List.nil_append]
  rcases h.route with ⟨-, hm⟩ | ⟨p, hp, -⟩
  · refine ⟨?_, ?_, h.fits⟩
    · rw [hsilent]
      exact hm
    · rw [hsilent, List.append_nil]
      exact unfinished_congr h.operations
  · rw [hr] at hp
    cases hp

theorem routeTicks_moves {s : TickRoute P} {batch : TickDataBatch P}
    (ht : ∀ tick ∈ batch.items, tick.timeMs ≤ u64Max)
    (hretry : s.retryRequest = none ∨ s.phase.buffersLiveData = true) :
    Drives (Moves (attempts s.historyIntervalMs)) s (s.routeTicks batch).1 (s.routeTicks batch).2 := by
  obtain ⟨hturns, hreq, -⟩ := s.routeTickToEntry_turns ht false true
  unfold routeTicks
  dsimp only
  cases hr : (s.routeTickToEntry batch false true).request with
  | none => exact hturns.moves hr
  | some pending =>
      obtain ⟨h1, h2, h3, h4⟩ := hreq (by rw [hr]; rfl)
      refine (hturns.request hr ⟨h1, h2, h3⟩ (hretry.resolve_right ?_)).moves
      rw [h4 rfl]
      exact Bool.false_ne_true

/-! ## Prefill and reconnect -/

section

omit [BEq P]

theorem prefillBoundary_fits {s : TickRoute P} (hs : s.Fits) {clock : RouteClock} (hclock : clock.Fits) :
    s.prefillBoundary clock ≤ u64Max ∧ s.prefillTarget clock ≤ u64Max := by
  have halign : alignTickHistoryTimeMs clock.providerTimeMs s.historyIntervalMs ≤ u64Max :=
    (alignTickHistoryTimeMs_le _ _).trans hclock.providerTimeMs
  have hboundary : s.prefillBoundary clock ≤ u64Max := by
    unfold prefillBoundary
    split
    · exact halign
    · exact hs.boundary
  exact ⟨hboundary, max_le hboundary halign⟩

/-- Without a grid a prefill starts before its target. -/
theorem prefillFrom_le {s : TickRoute P} (clock : RouteClock) (h0 : s.historyIntervalMs = 0) :
    s.prefillFrom clock ≤ s.prefillTarget clock := by
  have hpos : 0 < s.prefillBoundary clock := by
    unfold prefillBoundary
    split
    · rw [h0, alignTickHistoryTimeMs_zero_right]
      exact clock.providerTimeMs_pos
    · omega
  have hle : s.prefillBoundary clock ≤ s.prefillTarget clock := le_max_left _ _
  unfold prefillFrom
  dsimp only
  rw [if_neg (by omega), h0, alignTickHistoryTimeMs_zero_right]
  split <;> omega

/-- A prefill that is due is requested, from a state `s₀` that differs from `s` in its phase. -/
theorem startContinuity_ends {s : TickRoute P} (s₀ : TickRoute P)
    (hc : s₀.control = { s.control with phase := .prefilling }) (hu : s₀.unfinished = s.unfinished)
    (hfits : s.Fits → s₀.Fits) (hs : s.Fits)
    (hactive : s.entryPhase = .active) (he : s.mode.enabled = true) (hf : s.requestInFlight = false)
    (hr : s.retryRequest = none) (hpending : s.initialPrefillPending = true)
    (hlookback : 0 < s.prefillLookbackMs) (hlookback₀ : s₀.prefillLookbackMs = s.prefillLookbackMs)
    {clock : RouteClock} (hclock : clock.Fits) :
    Drives (Ends (attempts s.historyIntervalMs)) s (s₀.startContinuity clock).1 (s₀.startContinuity clock).2 := by
  have h1 : s₀.entryPhase = .active := (congrArg Control.entry hc).trans hactive
  have h2 : s₀.initialPrefillPending = true := (congrArg Control.prefillPending hc).trans hpending
  have h3 : s₀.phase = .prefilling := congrArg Control.phase hc
  have h4 : s₀.requestInFlight = false := (congrArg Control.inFlight hc).trans hf
  obtain ⟨hboundary, htarget⟩ := prefillBoundary_fits (hfits hs) hclock
  have hle : s₀.prefillFrom clock ≤ firstTickHistoryToTimeMs (s₀.prefillFrom clock) (s₀.prefillTarget clock)
      s₀.maxBackfillMs s₀.historyIntervalMs :=
    le_firstTickHistoryToTimeMs _ fun h0 => ⟨prefillFrom_le clock h0, (prefillFrom_le clock h0).trans htarget⟩
  unfold startContinuity
  rw [if_neg (by simp [active, h1, h2, h3, h4, hlookback₀]; omega)]
  dsimp only
  rw [if_neg (by omega)]
  refine Drives.prepend (request_ends _ (.inl rfl) ?_ hu (fun _ => ?_) hactive he hf hr rfl ?_)
    (sentOf_notifyContinuity _ _)
  · exact congrArg (fun c : Control PendingTickContinuityRequest =>
      { c with phase := .prefilling, inFlight := true }) hc
  · exact ⟨(hfits hs).observed, (hfits hs).buffer, htarget, hboundary⟩
  · exact fun hk => absurd rfl hk

theorem startContinuity_stays {s : TickRoute P} (h : s.phase ≠ .prefilling) (clock : RouteClock) :
    s.startContinuity clock = (s, []) := by
  unfold startContinuity
  rw [if_pos (by simp [h])]

/-- What is observed or held back fits. -/
theorem Fits.observedTimeMs {s : TickRoute P} (hs : s.Fits) : s.observedTimeMs ≤ u64Max := by
  unfold TickRoute.observedTimeMs
  refine max_le hs.observed ?_
  cases hmax : s.bufferedTimes.max? with
  | none => exact Nat.zero_le _
  | some time =>
      have hmem := List.max?_mem hmax
      unfold bufferedTimes at hmem
      obtain ⟨batch, hb, ht⟩ := List.mem_flatMap.mp (List.mem_filter.mp hmem).1
      obtain ⟨tick, htick, rfl⟩ := List.mem_map.mp ht
      exact hs.buffer batch hb tick htick

/-- A reconnect that starts with no retry due: it may have to wait, come to its end, or send a request. -/
theorem startReconnectRecovery_moves {s : TickRoute P} (hr : s.retryRequest = none) {clock : RouteClock}
    (hclock : clock.Fits) :
    Drives (Moves (attempts s.historyIntervalMs)) s (s.startReconnectRecovery clock).1
      (s.startReconnectRecovery clock).2 := by
  unfold startReconnectRecovery
  split
  · exact .stay s
  rename_i hguard
  simp only [Bool.or_eq_true, Bool.not_eq_true', not_or, Bool.not_eq_false, Bool.not_eq_true] at hguard
  obtain ⟨⟨⟨⟨hactive, -⟩, hmode⟩, -⟩, hflight⟩ := hguard
  dsimp only
  split
  · refine Drives.moves (.of_move ?_ ?_ ?_ (sentOf_notifyContinuity _ _))
    · refine .settle hr ?_
      split <;> rfl
    · rfl
    · exact fun hs => ⟨hs.observed, hs.buffer, Nat.zero_le _, hs.boundary⟩
  split
  · exact .stay s
  · refine (request_ends _ (.inr rfl) ?_ ?_ (fun hs => ?_) (by simpa [active] using hactive)
      (enabled_of_recoversGaps hmode) hflight hr rfl ?_).moves
    · rfl
    · rfl
    · exact ⟨hs.observed, hs.buffer, max_le hs.observedTimeMs hclock.providerTimeMs, hs.boundary⟩
    · exact fun _ hpos => firstTickHistoryToTimeMs_dvd _ _ hpos (alignTickHistoryTimeMs_dvd _ _ hpos)

end

/-! ## Completions -/

theorem deliverHistory_control (s : TickRoute P) {items : List (Tick P)}
    (ht : ∀ tick ∈ items, tick.timeMs ≤ u64Max) :
    (s.deliverHistory items).1.control = s.control ∧ (s.deliverHistory items).1.operations = s.operations ∧
      sentOf (s.deliverHistory items).2.1 = [] ∧ (s.Fits → (s.deliverHistory items).1.Fits) ∧
      (s.deliverHistory items).1.reconnectTargetTimeMs = s.reconnectTargetTimeMs := by
  have hsent : sentOf (s.deliverHistory items).2.1 = [] := by
    unfold deliverHistory
    split
    · rfl
    · dsimp only
      split
      · rfl
      · exact sentOf_deliverTicks _ _
  obtain ⟨new, hnew, hd⟩ := s.deliverHistory_eq items
  rcases hd with ⟨hd, -⟩ | hd
  · rw [hd]
    exact ⟨rfl, rfl, hsent, id, rfl⟩
  · obtain ⟨w, d, o, hp⟩ := (s.withoutHistory items).recordTickProgress_eq new
    obtain ⟨h1, h2, -⟩ := (s.withoutHistory items).recordTickProgress_control new
    refine ⟨by rw [hd, h1]; rfl, by rw [hd, h2]; rfl, hsent, fun hs => ?_, by rw [hd, hp]; rfl⟩
    have hwithout : (s.withoutHistory items).Fits := by
      refine ⟨hs.observed, fun batch hb tick htick => ?_, hs.target, hs.boundary⟩
      obtain ⟨batch', hb', hsub⟩ := mem_withoutObserved hb
      exact hs.buffer batch' hb' tick (hsub tick htick)
    rw [hd]
    exact hwithout.progress fun tick hm => ht tick (hnew tick hm)

omit [BEq P] in
theorem finishRecovery_ends {s : TickRoute P} (hr : s.retryRequest = none)
    (pending : PendingTickContinuityRequest) (v : HistoryVerdict P) (deliveredItems : Nat)
    {A : Attempts PendingTickContinuityRequest} :
    Drives (Ends A) s (s.finishRecovery pending v deliveredItems).1
      (s.finishRecovery pending v deliveredItems).2 := by
  refine .of_move ?_ rfl (fun hs => ⟨hs.observed, hs.buffer, Nat.zero_le _, hs.boundary⟩) ?_
  · refine .settle hr ?_
    unfold finishRecovery
    dsimp only
    split <;> rfl
  · unfold finishRecovery
    dsimp only
    split
    · rfl
    · exact sentOf_notifyContinuity _ _

/-- A flush ends in a request, or with nothing held back. -/
theorem flushBuffer_ends {pending : PendingTickContinuityRequest} {v : HistoryVerdict P} {deliveredItems : Nat}
    (fuel : Nat) {s : TickRoute P} (hr : s.retryRequest = none) (hs : s.Fits) (hfuel : s.buffer.length < fuel) :
    Drives (Ends (attempts s.historyIntervalMs)) s (s.flushBuffer pending v deliveredItems fuel).1
      (s.flushBuffer pending v deliveredItems fuel).2 := by
  induction fuel generalizing s with
  | zero => cases hfuel
  | succ fuel ih =>
      unfold flushBuffer
      split
      · exact finishRecovery_ends hr pending v deliveredItems
      · rename_i batch buffer hbuf
        dsimp only
        generalize hs₀ : ({ s with
          buffer := buffer, bufferedItems := s.bufferedItems - batch.items.length } : TickRoute P) = s₀
        have hc : s₀.control = s.control := by rw [← hs₀]; rfl
        have hu : s₀.unfinished = s.unfinished := by rw [← hs₀]; rfl
        have hgrid : s₀.historyIntervalMs = s.historyIntervalMs := congrArg Control.gridMs hc
        have hr₀ : s₀.retryRequest = none := (congrArg Control.retry hc).trans hr
        have hf₀ : s₀.Fits := by
          rw [← hs₀]
          exact ⟨hs.observed, fun b hb => hs.buffer b (by rw [hbuf]; exact List.mem_cons_of_mem _ hb), hs.target,
            hs.boundary⟩
        have hbatch : ∀ tick ∈ batch.items, tick.timeMs ≤ u64Max :=
          hs.buffer batch (by rw [hbuf]; exact List.mem_cons_self)
        obtain ⟨ht, hreq, hbuffer⟩ := s₀.routeTickToEntry_turns hbatch true v.usable
        generalize s₀.routeTickToEntry batch true v.usable = r at ht hreq hbuffer
        rw [← hgrid]
        cases hr : r.request with
        | none =>
            dsimp only
            have hm := ht.moves hr
            have hlen : r.route.buffer.length < fuel := by
              have hbuf₀ : s₀.buffer = buffer := by rw [← hs₀]
              rw [hbuf, List.length_cons] at hfuel
              cases hbuffer hr rfl with
              | inl h => rw [h, hbuf₀]; omega
              | inr h => rw [h, List.length_nil]; omega
            have hrest := ih (hm.control.retry_none hr₀) (ht.fits hf₀) hlen
            have hsame : r.route.historyIntervalMs = s₀.historyIntervalMs := hm.control.gridMs
            rw [hsame] at hrest
            exact (hm.ends hrest).of_same hc hu fun _ => hf₀
        | some pending =>
            obtain ⟨h1, h2, h3, -⟩ := hreq (by rw [hr]; rfl)
            exact (ht.request hr ⟨h1, h2, h3⟩ hr₀).of_same hc hu fun _ => hf₀

omit [BEq P] in
/-- A usable answer short of its target always has a next chunk, unless it was a prefill. -/
theorem nextChunk_request {s : TickRoute P} (hs : s.Fits) {pending : PendingTickContinuityRequest}
    (hgood : (attempts s.historyIntervalMs).good pending) (v : HistoryVerdict P) :
    (∃ next, s.nextChunk pending v = .request next ∧ next.attempt = 1 ∧
      (attempts s.historyIntervalMs).good next) ∨ s.nextChunk pending v = .flush := by
  unfold nextChunk
  dsimp only
  cases hk : pending.kind == .prefill with
  | true =>
      have hkind : pending.kind = .prefill := by simpa using hk
      generalize (if true && alignTickHistoryTimeMs s.reconnectTargetTimeMs s.historyIntervalMs == 0
        then s.initialPrefillBoundaryTimeMs
        else alignTickHistoryTimeMs s.reconnectTargetTimeMs s.historyIntervalMs) = target
      split
      · split
        · exact .inl ⟨_, rfl, rfl, fun hne => absurd hkind hne⟩
        · exact .inr rfl
      · exact .inr rfl
  | false =>
      have hne : pending.kind ≠ .prefill := by simpa using hk
      simp only [Bool.false_and, Bool.false_eq_true, if_false]
      split
      · rename_i hmore
        rw [Bool.and_eq_true, decide_eq_true_eq] at hmore
        obtain ⟨range, hrange, hdvd⟩ := nextTickHistoryRange_some s.maxBackfillMs s.historyIntervalMs hmore.2
          ((alignTickHistoryTimeMs_le _ _).trans hs.target) (hgood hne)
          (alignTickHistoryTimeMs_dvd s.reconnectTargetTimeMs s.historyIntervalMs)
        rw [hrange]
        exact .inl ⟨_, rfl, rfl, fun _ => hdvd⟩
      · exact .inr rfl

/-- What goes on after a finished request; a flush ends a prefill that proved its range. -/
theorem continueRecovery_ends {s : TickRoute P} (hactive : s.entryPhase = .active)
    (hf : s.requestInFlight = false) (hr : s.retryRequest = none) (he : s.mode.enabled = true) (hs : s.Fits)
    {pending : PendingTickContinuityRequest} (hgood : (attempts s.historyIntervalMs).good pending)
    (v : HistoryVerdict P) (deliveredItems : Nat) :
    ∃ prefillPending, (prefillPending = true → s.initialPrefillPending = true) ∧
      Drives (Ends (attempts s.historyIntervalMs)) { s with initialPrefillPending := prefillPending }
        (s.continueRecovery pending v deliveredItems).1 (s.continueRecovery pending v deliveredItems).2 := by
  unfold continueRecovery
  rcases nextChunk_request hs hgood v with ⟨next, hnext, hattempt, hnextGood⟩ | hnext
  · rw [hnext]
    have hphase : (if pending.kind == .prefill then .prefilling else .recovering : ContinuityPhase) =
        .prefilling ∨ (if pending.kind == .prefill then .prefilling else .recovering : ContinuityPhase) =
        .recovering := by
      split
      · exact .inl rfl
      · exact .inr rfl
    refine ⟨s.initialPrefillPending, id, ?_⟩
    dsimp only
    refine Drives.prepend (request_ends _ hphase ?_ ?_ ?_ hactive he hf hr hattempt hnextGood) ?_
    · rfl
    · rfl
    · exact fun h => ⟨h.observed, h.buffer, h.target, h.boundary⟩
    · split
      · exact sentOf_notifyContinuity _ _
      · rfl
  · rw [hnext]
    refine ⟨s.initialPrefillPending && !(v.usable && pending.kind == .prefill), ?_, ?_⟩
    · rw [Bool.and_eq_true]
      exact And.left
    · exact flushBuffer_ends (s := { s with
        initialPrefillPending := s.initialPrefillPending && !(v.usable && pending.kind == .prefill) })
        _ hr ⟨hs.observed, hs.buffer, hs.target, hs.boundary⟩ (Nat.lt_succ_self _)

/-- The control once the operation that counts is finished. -/
def Control.flushing (c : Control PendingTickContinuityRequest) (prefillPending : Bool) :
    Control PendingTickContinuityRequest :=
  { c with phase := .flushing, inFlight := false, prefillPending }

/-- A finished request moves on. -/
theorem finishHistory_ends {s : TickRoute P} (hactive : s.entryPhase = .active) (hf : s.requestInFlight = false)
    (hr : s.retryRequest = none) (he : s.mode.enabled = true) (hs : s.Fits)
    {pending : PendingTickContinuityRequest} (hgood : (attempts s.historyIntervalMs).good pending)
    {v : HistoryVerdict P} (hv : ∀ tick ∈ v.items, tick.timeMs ≤ u64Max) :
    ∃ prefillPending, (prefillPending = true → s.initialPrefillPending = true) ∧
      Drives (Ends (attempts s.historyIntervalMs)) { s with initialPrefillPending := prefillPending }
        (s.finishHistory pending v).1 (s.finishHistory pending v).2 := by
  obtain ⟨w, u, hs₁⟩ := s.settleHistory_eq pending v
  unfold finishHistory
  dsimp only
  generalize hfailed : (if v.usable then [] else notifyContinuity _ _ : List (TickNotice P)) = failed
  have hquiet : sentOf failed = [] := by
    rw [← hfailed]
    split
    · rfl
    · exact sentOf_notifyContinuity _ _
  obtain ⟨h1, h2, h3, h4, -⟩ := (s.settleHistory pending v).deliverHistory_control hv
  generalize (s.settleHistory pending v).deliverHistory v.items = r at h1 h2 h3 h4 ⊢
  have hc : r.1.control = { s.control with
      prefillPending := s.initialPrefillPending && (v.usable || pending.kind != .prefill) } := by
    rw [h1, hs₁]
    rfl
  have hu : r.1.unfinished = s.unfinished := by
    rw [unfinished_congr h2, hs₁]
    rfl
  have hfits : r.1.Fits := by
    refine h4 ?_
    rw [hs₁]
    exact ⟨hs.observed, hs.buffer, hs.target, hs.boundary⟩
  have hgrid : r.1.historyIntervalMs = s.historyIntervalMs := congrArg Control.gridMs hc
  obtain ⟨prefillPending, hpp, hd⟩ := continueRecovery_ends ((congrArg Control.entry hc).trans hactive)
    ((congrArg Control.inFlight hc).trans hf) ((congrArg Control.retry hc).trans hr)
    ((congrArg (·.mode.enabled) hc).trans he) hfits (by rw [hgrid]; exact hgood) v r.2.2
  have hattempts : attempts r.1.historyIntervalMs = attempts s.historyIntervalMs := by rw [hgrid]
  rw [hattempts] at hd
  refine ⟨prefillPending, fun h => ?_, ?_⟩
  · have hsettled : (s.initialPrefillPending && (v.usable || pending.kind != .prefill)) = true :=
      (congrArg Control.prefillPending hc).symm.trans (hpp h)
    exact (Bool.and_eq_true_iff.mp hsettled).1
  · have hquiet' : sentOf (failed ++ r.2.1) = [] := by
      rw [sentOf_append, hquiet, h3]
      rfl
    refine (hd.prepend hquiet').of_same ?_ hu fun _ => ?_
    · exact congrArg (fun c : Control PendingTickContinuityRequest => { c with prefillPending }) hc
    · exact ⟨hfits.observed, hfits.buffer, hfits.target, hfits.boundary⟩

/-- What the completion that counts leads to: a retry, or the next move. -/
theorem completeContinuity_cases {s : TickRoute P} {operation : TickContinuityOperation}
    (hcurrent : s.current operation = true) (hr : s.retryRequest = none) (he : s.mode.enabled = true)
    (hs : s.Fits) (hgood : (attempts s.historyIntervalMs).good operation.pending)
    {result : TickHistoryResult P} (hresult : ∀ tick ∈ result.ticks, tick.timeMs ≤ u64Max)
    (clock : RouteClock) :
    let s' := (s.completeContinuity operation result clock).1
    let ns := (s.completeContinuity operation result clock).2
    s'.Fits ∧
    ((s'.unfinished = s.unfinished ∧ sentOf ns = [] ∧ operation.pending.attempt < s.retry.maxAttempts ∧
      ∃ phase, (phase = .prefilling ∨ phase = .recovering) ∧ s'.control = { s.control with
        phase, inFlight := false
        retry := some ((attempts s.historyIntervalMs).again operation.pending) }) ∨
    (s'.unfinished = s.unfinished ++ sentOf ns ∧
      ∃ prefillPending, (prefillPending = true → s.initialPrefillPending = true) ∧
        Ends (attempts s.historyIntervalMs) (Control.flushing s.control prefillPending) (sentOf ns)
          s'.control)) := by
  have hactive : s.entryPhase = .active := by
    simp only [current, Bool.and_eq_true] at hcurrent
    simpa [active] using hcurrent.1.1
  dsimp only
  unfold completeContinuity
  rw [if_neg (by rw [hcurrent]; exact Bool.false_ne_true)]
  dsimp only
  split
  · rename_i hretries
    simp only [retries, Bool.and_eq_true, decide_eq_true_eq] at hretries
    refine ⟨⟨hs.observed, hs.buffer, hs.target, hs.boundary⟩, .inl ⟨rfl, sentOf_notifyContinuity _ _, hretries.2,
      if operation.pending.kind == .prefill then .prefilling else .recovering, ?_, rfl⟩⟩
    split
    · exact .inl rfl
    · exact .inr rfl
  · have hv : ∀ tick ∈ (s.judge operation.pending result).items, tick.timeMs ≤ u64Max := by
      intro tick ht
      obtain ⟨t, hmem, heq⟩ := judge_times ht
      rw [heq]
      exact hresult t hmem
    have hflush : ({ s with requestInFlight := false, phase := .flushing } : TickRoute P).Fits :=
      ⟨hs.observed, hs.buffer, hs.target, hs.boundary⟩
    obtain ⟨prefillPending, hpp, h⟩ := finishHistory_ends
      (s := { s with requestInFlight := false, phase := .flushing }) hactive rfl hr he hflush hgood hv
    exact ⟨h.fits ⟨hs.observed, hs.buffer, hs.target, hs.boundary⟩,
      .inr ⟨h.unfinished, prefillPending, hpp, h.control⟩⟩

/-! ## Transport statuses and the clock -/

section

omit [BEq P]

/-- A transport loss, a route that goes on, or a status that means nothing to the route. -/
theorem applyStreamStatus_cases (s : TickRoute P) (status : StreamStatus)
    {A : Attempts PendingTickContinuityRequest} :
    sentOf (s.applyStreamStatus status).2.1 = [] ∧
      ((s.applyStreamStatus status).1 = s ∧ (s.applyStreamStatus status).2.2 = none ∨
        (s.applyStreamStatus status).2.2 = none ∧ (s.applyStreamStatus status).1.phase = .waitingForReady ∧
          Drives (Ends A) s (s.applyStreamStatus status).1 [] ∨
        s.mode.enabled = true ∧ s.phase = .waitingForReady ∧ s.requestInFlight = false ∧
          (s.initialPrefillPending = true ∧ (s.applyStreamStatus status).2.2 = some .prefill ∧
              (s.applyStreamStatus status).1 = { s with phase := .prefilling } ∨
            s.initialPrefillPending = false ∧ s.mode.recoversGaps = true ∧
              (s.applyStreamStatus status).2.2 = some .reconnect ∧
              (s.applyStreamStatus status).1 = { s with phase := .recovering })) := by
  unfold applyStreamStatus
  dsimp only
  split
  · refine ⟨?_, .inr (.inl ⟨rfl, rfl, ?_⟩)⟩
    · dsimp only
      split <;> rfl
    · have hlose : s.loseTransport.control = { s.control with
          phase := .waitingForReady, inFlight := false, generation := s.generation + 1, retry := none } ∧
          s.loseTransport.unfinished = s.unfinished ∧ (s.Fits → s.loseTransport.Fits) := by
        unfold loseTransport invalidateTrust
        split
        · exact ⟨rfl, rfl, fun hs => ⟨hs.observed, hs.buffer, Nat.zero_le _, hs.boundary⟩⟩
        split
        · rw [markUnverified_eq]
          exact ⟨rfl, rfl, fun hs => ⟨hs.observed, hs.buffer, Nat.zero_le _, hs.boundary⟩⟩
        split
        · rw [markUnverified_eq]
          exact ⟨rfl, rfl, fun hs => ⟨hs.observed, hs.buffer, Nat.zero_le _, hs.boundary⟩⟩
        · rw [markUnverified_eq]
          exact ⟨rfl, rfl, fun hs => ⟨hs.observed, hs.buffer, Nat.zero_le _, hs.boundary⟩⟩
      refine .of_move ?_ hlose.2.1 hlose.2.2 rfl
      rw [hlose.1]
      exact .lose s.control
  split
  · rename_i hready
    rw [Bool.and_eq_true] at hready
    refine ⟨rfl, ?_⟩
    dsimp only
    unfold resumeTransport
    split
    · rename_i hwaits
      simp only [Bool.and_eq_true, beq_iff_eq, Bool.not_eq_true'] at hwaits
      split
      · rename_i hpp
        exact .inr (.inr ⟨hready.1, hwaits.1, hwaits.2, .inl ⟨hpp, rfl, rfl⟩⟩)
      · rename_i hpp
        split
        · rename_i hmode
          exact .inr (.inr ⟨hready.1, hwaits.1, hwaits.2, .inr ⟨by simpa using hpp, hmode, rfl, rfl⟩⟩)
        · exact .inl ⟨rfl, rfl⟩
    · exact .inl ⟨rfl, rfl⟩
  · exact ⟨rfl, .inl ⟨rfl, rfl⟩⟩

/-- What a route keeps besides the moves: a prefill that is pending is configured, a due retry has its phase, and
its times fit. -/
structure Settled (s : TickRoute P) : Prop where
  held : s.retryRequest.isSome = true → s.phase = .prefilling ∨ s.phase = .recovering
  prefills : s.initialPrefillPending = true → 0 < s.prefillLookbackMs
  fits : s.Fits

theorem Settled.no_retry {s : TickRoute P} (h : s.Settled) (h1 : s.phase ≠ .prefilling)
    (h2 : s.phase ≠ .recovering) : s.retryRequest = none := by
  cases hr : s.retryRequest with
  | none => rfl
  | some p =>
      rcases h.held (by rw [hr]; rfl) with h | h
      · exact absurd h h1
      · exact absurd h h2

theorem routeStatus_moves {s : TickRoute P} (hs : s.Settled) (status : StreamStatus) {clock : RouteClock}
    (hclock : clock.Fits) :
    Drives (Moves (attempts s.historyIntervalMs)) s (s.routeStatus status clock).1
      (s.routeStatus status clock).2 := by
  unfold routeStatus
  split
  · exact .stay s
  rename_i hactive
  have hactive : s.entryPhase = .active := by simpa [active] using hactive
  dsimp only
  obtain ⟨hsilent, h⟩ := s.applyStreamStatus_cases status (A := attempts s.historyIntervalMs)
  have hquiet : sentOf (s.routedStatus status ++ (s.applyStreamStatus status).2.1) = [] := by
    rw [sentOf_append, hsilent, sentOf_routedStatus]
    rfl
  refine Drives.prepend ?_ hquiet
  rcases h with ⟨h1, h2⟩ | ⟨h1, -, h2⟩ | ⟨he, hphase, hf, h⟩
  · rw [h1, h2]
    exact .stay s
  · rw [h1]
    exact h2.moves
  · have hr : s.retryRequest = none := hs.no_retry (by rw [hphase]; decide) (by rw [hphase]; decide)
    have hfits : ∀ phase, s.Fits → ({ s with phase := phase } : TickRoute P).Fits :=
      fun _ h => ⟨h.observed, h.buffer, h.target, h.boundary⟩
    rcases h with ⟨hpp, h1, h2⟩ | ⟨hpp, hmode, h1, h2⟩
    · rw [h1, h2]
      exact (startContinuity_ends { s with phase := .prefilling } rfl rfl (hfits _) hs.fits hactive he hf hr hpp
        (hs.prefills hpp) rfl hclock).moves
    · rw [h1, h2]
      have hwait : Drives (Ends (attempts s.historyIntervalMs)) s { s with phase := .recovering } [] :=
        .of_move (.wait hmode hpp) rfl (hfits _) rfl
      have hm := startReconnectRecovery_moves (s := { s with phase := .recovering }) hr hclock
      exact hwait.moves.trans hm

theorem process_moves {s : TickRoute P} {clock : RouteClock} (hclock : clock.Fits) :
    Drives (Moves (attempts s.historyIntervalMs)) s (s.process clock).1 (s.process clock).2 := by
  unfold process
  split
  · exact .stay s
  rename_i hguard
  simp only [Bool.or_eq_true, Bool.not_eq_true', not_or, Bool.not_eq_false, Bool.not_eq_true] at hguard
  have hactive : s.entryPhase = .active := by simpa [active] using hguard.1
  cases hr : s.retryRequest with
  | some pending =>
      dsimp only
      split
      · exact .stay s
      · unfold retryHistory
        dsimp only
        generalize hph : (if pending.kind == .prefill then .prefilling else .recovering : ContinuityPhase) = ph
        have hphase : ph = .prefilling ∨ ph = .recovering := by
          rw [← hph]
          split
          · exact .inl rfl
          · exact .inr rfl
        obtain ⟨h1, h2⟩ := requestContinuityHistory_sent
          (s := { s with phase := ph, retryRequest := none, retryAtMs := 0, requestInFlight := true }) hactive rfl
          pending
        refine ⟨?_, ?_, fun hs => ?_⟩
        · rw [h1, h2]
          exact (Move.again hphase hactive hr).moves
        · rw [h1, h2]
          exact List.map_append
        · rw [h1]
          exact ⟨hs.observed, hs.buffer, hs.target, hs.boundary⟩
  | none =>
      dsimp only
      split
      · exact startReconnectRecovery_moves hr hclock
      · exact .stay s

/-! ## Events -/

theorem replayStatus_cases (s : TickRoute P) (replay : Option StreamStatus) (h : s.phase ≠ .waitingForReady)
    {A : Attempts PendingTickContinuityRequest} :
    sentOf (s.replayStatus replay).2.1 = [] ∧ (s.replayStatus replay).2.2 = none ∧
      ((s.replayStatus replay).1 = s ∨ (s.replayStatus replay).1.phase = .waitingForReady ∧
        Drives (Ends A) s (s.replayStatus replay).1 []) := by
  cases replay with
  | none => exact ⟨rfl, rfl, .inl rfl⟩
  | some status =>
      obtain ⟨h1, h2⟩ := s.applyStreamStatus_cases status (A := A)
      rcases h2 with ⟨h2, h3⟩ | ⟨h2, h3, h4⟩ | ⟨-, hphase, -⟩
      · exact ⟨h1, h3, .inl h2⟩
      · exact ⟨h1, h2, .inr ⟨h3, h4⟩⟩
      · exact absurd hphase h

/-- What is told of a cached status. -/
theorem sentOf_replay (s : TickRoute P) (replay : Option StreamStatus) :
    sentOf ((replay.map s.routedStatus).getD []) = [] := by
  cases replay with
  | none => rfl
  | some status => exact s.sentOf_routedStatus status

/-- A route that has just become active starts its prefill, unless the transport is known to be lost. -/
theorem prefill_moves {s : TickRoute P} (hs : s.Settled) (hactive : s.entryPhase = .active)
    (hf : s.requestInFlight = false) (hr : s.retryRequest = none)
    (hphase : s.phase = if s.initialPrefillPending then .prefilling else .live)
    (hmode : s.mode.enabled = false → s.initialPrefillPending = false) {applied : TickRoute P}
    (ha : applied = s ∨ applied.phase = .waitingForReady ∧
      Drives (Ends (attempts s.historyIntervalMs)) s applied [])
    {clock : RouteClock} (hclock : clock.Fits) :
    let prefill := if 0 < s.prefillLookbackMs then applied.startContinuity clock else (applied, [])
    Drives (Moves (attempts s.historyIntervalMs)) s prefill.1 prefill.2 ∧ prefill.1.control.Rests := by
  have hstay : applied.phase ≠ .prefilling →
      (if 0 < s.prefillLookbackMs then applied.startContinuity clock else (applied, [])) = (applied, []) := by
    intro h
    split
    · exact startContinuity_stays h clock
    · rfl
  dsimp only
  rcases ha with rfl | ⟨hwaits, hends⟩
  · cases hpp : applied.initialPrefillPending with
    | true =>
        rw [hpp, if_pos rfl] at hphase
        have hlookback := hs.prefills hpp
        have he : applied.mode.enabled = true := by
          cases hm : applied.mode.enabled with
          | true => rfl
          | false => rw [hmode hm] at hpp; cases hpp
        have hc : applied.control = { applied.control with phase := .prefilling } := by
          rw [← hphase]
          rfl
        have hends := startContinuity_ends applied hc rfl id hs.fits hactive he hf hr hpp hlookback rfl hclock
        rw [if_pos hlookback]
        exact ⟨hends.moves, hends.control.rests⟩
    | false =>
        rw [hpp, if_neg Bool.false_ne_true] at hphase
        rw [hstay (by rw [hphase]; decide)]
        refine ⟨.stay _, fun _ _ hb => ?_⟩
        change applied.phase.buffersLiveData = true at hb
        rw [hphase] at hb
        cases hb
  · rw [hstay (by rw [hwaits]; decide)]
    exact ⟨hends.moves, hends.control.rests⟩

theorem completeSubscribe_moves {s : TickRoute P} (hs : s.Settled) (hfresh : s.control.Fresh)
    (hmode : s.mode.enabled = false → s.initialPrefillPending = false) (hpending : s.entryPhase = .pending)
    (replay : Option StreamStatus) {clock : RouteClock} (hclock : clock.Fits) :
    Drives (Moves (attempts s.historyIntervalMs)) { s with entryPhase := .active }
        (s.completeSubscribe replay clock).1 (s.completeSubscribe replay clock).2 ∧
      (s.completeSubscribe replay clock).1.control.Rests := by
  obtain ⟨hf, hr, hphase⟩ := hfresh hpending
  have hs' : ({ s with entryPhase := .active } : TickRoute P).Settled :=
    ⟨hs.held, hs.prefills, hs.fits.observed, hs.fits.buffer, hs.fits.target, hs.fits.boundary⟩
  have hgrid : s.historyIntervalMs = ({ s with entryPhase := .active } : TickRoute P).historyIntervalMs := rfl
  unfold completeSubscribe
  rw [if_neg (by simp [hpending]), hgrid]
  generalize hs₁ : ({ s with entryPhase := .active } : TickRoute P) = s₁ at hs' ⊢
  have hactive : s₁.entryPhase = .active := by rw [← hs₁]
  have hf₁ : s₁.requestInFlight = false := by rw [← hs₁]; exact hf
  have hr₁ : s₁.retryRequest = none := by rw [← hs₁]; exact hr
  have hphase₁ : s₁.phase = if s₁.initialPrefillPending then .prefilling else .live := by
    rw [← hs₁]
    exact hphase
  have hmode₁ : s₁.mode.enabled = false → s₁.initialPrefillPending = false := by rw [← hs₁]; exact hmode
  obtain ⟨h1, h2, h3⟩ := s₁.replayStatus_cases replay (by rw [hphase₁]; split <;> decide)
    (A := attempts s₁.historyIntervalMs)
  obtain ⟨h4, h5⟩ := prefill_moves hs' hactive hf₁ hr₁ hphase₁ hmode₁ h3 hclock
  have hnone : ∀ s₂ : TickRoute P, s₂.startWork none clock = (s₂, []) := fun _ => rfl
  dsimp only
  rw [h2, hnone]
  exact ⟨((h4.append (s₁.sentOf_replay replay)).append h1).append rfl, h5⟩

end

/-- Clocks and tick times of an event are 64-bit values. -/
def Event.Fits : Event P → Prop
  | .subscribed _ clock | .status _ clock | .process clock => clock.Fits
  | .ticks batch => ∀ tick ∈ batch.items, tick.timeMs ≤ u64Max
  | .history _ result clock => clock.Fits ∧ ∀ tick ∈ result.ticks, tick.timeMs ≤ u64Max
  | .unsubscribe | .subscriberGone => True

/-- What a route keeps through all its events, with the completions `extra` that have come and are not handled
yet, and the requests that were ever sent. -/
structure Orderly (s : TickRoute P) (extra : List (Sent PendingTickContinuityRequest))
    (sent : List PendingTickContinuityRequest) : Prop where
  sound : Control.Sound (attempts s.historyIntervalMs) s.control (s.unfinished ++ extra) sent
  fresh : s.control.Fresh
  fits : s.Fits

omit [BEq P] in
theorem Orderly.settled {s : TickRoute P} {extra sent} (h : s.Orderly extra sent) : s.Settled :=
  ⟨h.sound.held, fun hp => of_decide_eq_true (h.sound.prefills hp), h.fits⟩

/-- Every event but a completion makes moves, once the entry has its phase. -/
theorem step_moves {s : TickRoute P} {extra sent} (h : s.Orderly extra sent) {e : Event P} (hfits : e.Fits)
    (he : ∀ id result clock, e ≠ .history id result clock) :
    ∃ entry, Drives (Moves (attempts s.historyIntervalMs)) { s with entryPhase := entry } (s.step e).1
        (s.step e).2 ∧
      (s.control.Rests → (s.step e).1.control.Rests) ∧ (s.step e).1.control.Fresh ∧
      (s.control.Served s.unfinished → ({ s.control with entry } : Control _).Served s.unfinished) := by
  have hsettled := h.settled
  have hretry : s.retryRequest = none ∨ s.phase.buffersLiveData = true := by
    cases hr : s.retryRequest with
    | none => exact .inl rfl
    | some p =>
        right
        rcases hsettled.held (by rw [hr]; rfl) with hp | hp
        · rw [hp]
          rfl
        · rw [hp]
          rfl
  -- an event that leaves a route alone unless it is active
  have hmoves : ∀ r : TickRoute P × List (TickNotice P),
      Drives (Moves (attempts s.historyIntervalMs)) s r.1 r.2 → (s.entryPhase ≠ .active → r = (s, [])) →
      ∃ entry, Drives (Moves (attempts s.historyIntervalMs)) { s with entryPhase := entry } r.1 r.2 ∧
        (s.control.Rests → r.1.control.Rests) ∧ r.1.control.Fresh ∧
        (s.control.Served s.unfinished → ({ s.control with entry } : Control _).Served s.unfinished) := by
    intro r hd hstay
    refine ⟨s.entryPhase, hd, hd.control.rests, fun hp => ?_, id⟩
    have hentry : s.entryPhase = .pending := hd.control.entry.symm.trans hp
    rw [hstay (by rw [hentry]; decide)] at hp ⊢
    exact h.fresh hp
  cases e with
  | subscribed replay clock =>
      by_cases hp : s.entryPhase = .pending
      · have hmode : s.mode.enabled = false → s.initialPrefillPending = false :=
          fun hm => (h.sound.disabled hm).2.1
        obtain ⟨h1, h2⟩ := completeSubscribe_moves hsettled h.fresh hmode hp replay hfits
        refine ⟨.active, h1, fun _ => h2, fun hpending => ?_, fun _ _ hf => ?_⟩
        · have hentry := h1.control.entry.symm.trans hpending
          cases hentry
        · rw [show s.control.inFlight = false from (h.fresh hp).1] at hf
          cases hf
      · have hstay : s.completeSubscribe replay clock = (s, []) := by
          unfold completeSubscribe
          rw [if_pos (by simpa using hp)]
        refine ⟨s.entryPhase, ?_, ?_, ?_, id⟩
        · simp only [step, hstay]
          exact .stay s
        · simp only [step, hstay]
          exact id
        · simp only [step, hstay]
          exact h.fresh
  | ticks batch =>
      refine hmoves _ (routeTicks_moves hfits hretry) fun hn => ?_
      have hroute : s.routeTickToEntry batch false true = { route := s } := by
        unfold routeTickToEntry
        rw [if_pos (by simp [active, hn])]
      simp only [step, routeTicks, hroute, List.append_nil]
  | status status clock =>
      refine hmoves _ (routeStatus_moves hsettled status hfits) fun hn => ?_
      exact if_pos (by simp [active, hn])
  | history id result clock => exact absurd rfl (he id result clock)
  | process clock =>
      refine hmoves _ (s.process_moves hfits) fun hn => ?_
      exact if_pos (by simp [active, hn])
  | unsubscribe =>
      exact ⟨.unsubscribing, .stay _, fun _ ha => (by cases ha), fun hp => (by cases hp),
        fun _ ha => (by cases ha)⟩
  | subscriberGone =>
      exact ⟨s.entryPhase, .of_eq rfl rfl (fun hs => ⟨hs.observed, hs.buffer, hs.target, hs.boundary⟩) rfl, id,
        h.fresh, id⟩

theorem completeContinuity_stale {s : TickRoute P} {operation : TickContinuityOperation}
    (h : s.current operation = false) (result : TickHistoryResult P) (clock : RouteClock) :
    s.completeContinuity operation result clock = (s, []) := by
  unfold completeContinuity
  rw [if_pos (by rw [h]; rfl)]

theorem Orderly.step {s : TickRoute P} {extra sent} (h : s.Orderly extra sent) {e : Event P} (hfits : e.Fits)
    (he : ∀ id result clock, e ≠ .history id result clock) :
    (s.step e).1.Orderly extra (sent ++ (sentOf (s.step e).2).map (·.pending)) := by
  obtain ⟨entry, hd, -, hfresh, -⟩ := step_moves h hfits he
  have hgrid : (s.step e).1.historyIntervalMs = s.historyIntervalMs := hd.control.gridMs
  have hs := (h.sound.enter entry).moves hd.control
  refine ⟨?_, hfresh, hd.fits ⟨h.fits.observed, h.fits.buffer, h.fits.target, h.fits.boundary⟩⟩
  rw [hgrid]
  refine hs.of_subperm ?_
  rw [hd.unfinished, List.append_assoc, List.append_assoc]
  exact (List.perm_append_comm.append_left _).subperm

theorem Orderly.step_carries {s : TickRoute P} {extra sent} (h : s.Orderly extra sent) {e : Event P} (hfits : e.Fits)
    (he : ∀ id result clock, e ≠ .history id result clock) :
    (s.step e).1.unfinished = s.unfinished ++ sentOf (s.step e).2 ∧
      Control.Carries s.control (sentOf (s.step e).2) (s.step e).1.control := by
  obtain ⟨entry, hd, -⟩ := step_moves h hfits he
  have hcarries := hd.control.carries
  exact ⟨hd.unfinished, hcarries.next, hcarries.ids, hcarries.maxAttempts, hcarries.disabled⟩

/-- The completion of an operation, whether it still counts or not. -/
theorem Orderly.complete {s : TickRoute P} {operation : TickContinuityOperation} {extra sent}
    (h : s.Orderly (sentOperation operation :: extra) sent) {result : TickHistoryResult P}
    (hresult : ∀ tick ∈ result.ticks, tick.timeMs ≤ u64Max) (clock : RouteClock) :
    let r := s.completeContinuity operation result clock
    r.1.Orderly extra (sent ++ (sentOf r.2).map (·.pending)) ∧
      (r.1.unfinished = s.unfinished ++ sentOf r.2 ∧ Control.Carries s.control (sentOf r.2) r.1.control) ∧
      (s.current operation = true → r.1.control.Served r.1.unfinished ∧ r.1.control.Rests) := by
  dsimp only
  have hsub : (s.unfinished ++ extra).Sublist (s.unfinished ++ sentOperation operation :: extra) :=
    (List.sublist_cons_self _ _).append_left _
  cases hcurrent : s.current operation with
  | false =>
      rw [completeContinuity_stale hcurrent]
      refine ⟨⟨?_, h.fresh, h.fits⟩, ⟨(List.append_nil _).symm, .refl _⟩, fun hc => by cases hc⟩
      rw [sentOf_nil, List.map_nil, List.append_nil]
      exact h.sound.of_subperm hsub.subperm
  | true =>
      have hcur := hcurrent
      simp only [current, Bool.and_eq_true, beq_iff_eq] at hcur
      obtain ⟨⟨hactive, hf⟩, hg⟩ := hcur
      have hmem : sentOperation operation ∈ s.unfinished ++ sentOperation operation :: extra :=
        List.mem_append_right _ List.mem_cons_self
      have hid : ∀ o ∈ s.unfinished ++ extra, o.id ≠ (sentOperation operation).id := by
        have hn := h.sound.nodup
        rw [List.map_append, List.map_cons, List.nodup_middle, List.nodup_cons, ← List.map_append] at hn
        exact fun o ho heq => hn.1 (List.mem_map.mpr ⟨o, ho, heq⟩)
      have hr : s.retryRequest = none := by
        cases hr : s.retryRequest with
        | none => rfl
        | some p => exact absurd (h.sound.retry p hr).1 (by rw [show s.control.inFlight = true from hf]; decide)
      have he : s.mode.enabled = true := by
        cases hm : s.mode.enabled with
        | true => rfl
        | false => exact absurd (h.sound.disabled hm).1 (by rw [show s.control.inFlight = true from hf]; decide)
      have hentry : s.entryPhase = .active := by simpa [active] using hactive
      have henabled : ¬ s.mode.enabled = false := by
        rw [he]
        exact fun h => by cases h
      have hpending : (attempts s.historyIntervalMs).good operation.pending :=
        h.sound.good _ (List.mem_of_getLast? (h.sound.only hf _ hmem hg.symm).2)
      have hperm : ∀ ops : List (Sent PendingTickContinuityRequest),
          (s.unfinished ++ ops ++ extra).Perm (s.unfinished ++ extra ++ ops) := by
        intro ops
        rw [List.append_assoc, List.append_assoc]
        exact List.perm_append_comm.append_left _
      obtain ⟨hfits, hcases⟩ := completeContinuity_cases hcurrent hr he h.fits hpending hresult clock
      rcases hcases with ⟨hu, hn, hlt, phase, hphase, hc⟩ | ⟨hu, prefillPending, hpp, hends⟩
      · have hpp : s.initialPrefillPending = true → s.control.prefillPending = true := id
        obtain ⟨hs, hlast⟩ := h.sound.finish hf hmem hg.symm .flushing hpp hsub hid
        have hs' := hs.later rfl he hlast hlt hphase
        have hgrid : (s.completeContinuity operation result clock).1.historyIntervalMs = s.historyIntervalMs :=
          congrArg Control.gridMs hc
        refine ⟨⟨?_, ?_, hfits⟩, ⟨by rw [hu, hn, List.append_nil], ?_⟩, fun _ => ⟨?_, ?_⟩⟩
        · rw [hgrid, hc, hu, hn, List.map_nil, List.append_nil]
          exact hs'
        · rw [hc]
          exact fun hp => absurd (hentry.symm.trans hp) (by decide)
        · rw [hn, hc]
          exact .silent rfl rfl fun hd => absurd hd henabled
        · rw [hc]
          exact fun _ hf' => by cases hf'
        · rw [hc]
          exact fun _ _ _ => ⟨Control.requests_ne hphase, .inr (.inl rfl)⟩
      · obtain ⟨hs, -⟩ := h.sound.finish hf hmem hg.symm .flushing hpp hsub hid
        have hgrid : (s.completeContinuity operation result clock).1.historyIntervalMs = s.historyIntervalMs :=
          hends.moves.gridMs
        have hcarries := hends.moves.carries
        refine ⟨⟨?_, fun hp => ?_, hfits⟩, ⟨hu, hcarries.next, hcarries.ids, hcarries.maxAttempts,
          fun hd => absurd hd henabled⟩, fun _ => ⟨?_, hends.rests⟩⟩
        · have hs' := hs.moves hends.moves
          rw [hu, hgrid]
          exact hs'.of_subperm (hperm _).subperm
        · exact absurd ((hends.moves.entry.trans hentry).symm.trans hp) (by decide)
        · have hserved : (Control.flushing s.control prefillPending).Served s.unfinished :=
            fun _ hf' => by cases hf'
          rw [hu]
          exact hserved.moves hends.moves

section

omit [BEq P]

/-- The provider has answered the operation `id`. -/
def answered (s : TickRoute P) (id : Nat) : TickRoute P :=
  { s with operations := s.operations.filter (·.id != id) }

/-- An operation leaves the provider when its first answer comes. -/
theorem Orderly.arrive {s : TickRoute P} {extra sent} (h : s.Orderly extra sent)
    {operation : TickContinuityOperation} (hop : operation ∈ s.operations) :
    (s.answered operation.id).Orderly (sentOperation operation :: extra) sent := by
  refine ⟨h.sound.of_subperm ?_, h.fresh,
    ⟨h.fits.observed, h.fits.buffer, h.fits.target, h.fits.boundary⟩⟩
  have hn := h.sound.nodup
  rw [List.map_append, List.nodup_append] at hn
  have hsub : ((s.operations.filter (·.id != operation.id)).map sentOperation).Sublist s.unfinished :=
    List.filter_sublist.map _
  have hperm : ((s.operations.filter (·.id != operation.id)).map sentOperation ++
      [sentOperation operation]).Subperm s.unfinished := by
    refine List.Nodup.subperm ?_ ?_
    · rw [List.nodup_append]
      refine ⟨(hn.1.of_map _).sublist hsub, List.nodup_singleton _, fun o ho o' ho' heq => ?_⟩
      obtain ⟨x, hx, rfl⟩ := List.mem_map.mp ho
      rw [List.mem_singleton.mp ho'] at heq
      have hne := (List.mem_filter.mp hx).2
      have hid : x.id = operation.id := congrArg Sent.id heq
      simp [hid] at hne
    · intro o ho
      rcases List.mem_append.mp ho with ho | ho
      · exact hsub.subset ho
      · rw [List.mem_singleton.mp ho]
        exact List.mem_map_of_mem hop
  have happ := (List.subperm_append_right extra).mpr hperm
  rwa [List.append_assoc] at happ

/-! ## Routes come to rest -/

/-- Between events a route is orderly, its request is with the provider, and it rests. -/
structure AtRest (s : TickRoute P) (sent : List PendingTickContinuityRequest) : Prop where
  orderly : s.Orderly [] sent
  served : s.control.Served s.unfinished
  rests : s.control.Rests

/-- An answer that does not count leaves the request that does. -/
theorem AtRest.stale {s : TickRoute P} {sent} (h : s.AtRest sent) {operation : TickContinuityOperation}
    (hop : operation ∈ s.operations) (hcurrent : s.current operation = false) :
    (s.answered operation.id).control.Served (s.answered operation.id).unfinished := by
  intro hactive hf
  obtain ⟨o, ho, hg⟩ := h.served hactive hf
  obtain ⟨x, hx, rfl⟩ := List.mem_map.mp ho
  refine ⟨_, List.mem_map_of_mem (List.mem_filter.mpr ⟨hx, ?_⟩), hg⟩
  rw [bne_iff_ne]
  intro hid
  have hsame : sentOperation x = sentOperation operation :=
    List.inj_on_of_nodup_map h.orderly.sound.nodup (List.mem_append_left _ (List.mem_map_of_mem hx))
      (List.mem_append_left _ (List.mem_map_of_mem hop)) hid
  have hentry : s.entryPhase = .active := hactive
  have hflight : s.requestInFlight = true := hf
  have hgen : operation.generation = s.generation := (congrArg Sent.generation hsame).symm.trans hg
  simp [current, active, hentry, hflight, hgen] at hcurrent

end

theorem AtRest.step {s : TickRoute P} {sent} (h : s.AtRest sent) {e : Event P} (hfits : e.Fits) :
    ∃ sent', (s.step e).1.AtRest sent' := by
  by_cases he : ∃ id result clock, e = .history id result clock
  · obtain ⟨id, result, clock, rfl⟩ := he
    cases hop : s.operations.find? (·.id == id) with
    | none =>
        have hstay : s.step (.history id result clock) = (s, []) := by
          simp only [TickRoute.step, completeOperation, hop]
        rw [hstay]
        exact ⟨sent, h⟩
    | some operation =>
        have hmem := List.mem_of_find?_eq_some hop
        have hid : operation.id = id := by simpa using List.find?_some hop
        have hr : s.step (.history id result clock) =
            (s.answered operation.id).completeContinuity operation result clock := by
          simp only [TickRoute.step, completeOperation, hop, hid, answered]
        obtain ⟨h1, -, h2⟩ := (h.orderly.arrive hmem).complete hfits.2 clock
        rw [hr]
        cases hcurrent : s.current operation with
        | true =>
            obtain ⟨h3, h4⟩ := h2 hcurrent
            exact ⟨_, h1, h3, h4⟩
        | false =>
            have hstay := completeContinuity_stale (s := s.answered operation.id) hcurrent result clock
            rw [hstay] at h1 ⊢
            exact ⟨_, h1, h.stale hmem hcurrent, h.rests⟩
  · have he : ∀ id result clock, e ≠ .history id result clock :=
      fun id result clock heq => he ⟨id, result, clock, heq⟩
    obtain ⟨entry, hd, hrests, -, hserved⟩ := step_moves h.orderly hfits he
    refine ⟨_, h.orderly.step hfits he, ?_, hrests h.rests⟩
    rw [hd.unfinished]
    exact (hserved h.served).moves hd.control

omit [BEq P] in
/-- A route that was accepted starts at rest. -/
theorem create_orderly (symbol : String) (options : TickContinuityOptions) :
    (create symbol options : TickRoute P).Orderly [] [] where
  sound := {
    ids := fun o ho => by cases ho
    nodup := List.nodup_nil
    generations := fun o ho => by cases ho
    only := fun hf => by cases hf
    idle := fun _ _ o ho => by cases ho
    disabled := fun hd => ⟨rfl, Bool.and_eq_false_imp.mpr fun he => absurd he (by
      change options.mode.enabled = false at hd
      rw [hd]
      exact Bool.false_ne_true), rfl⟩
    retry := fun p hp => by cases hp
    held := fun hp => by cases hp
    prefills := fun hp => (Bool.and_eq_true_iff.mp hp).2
    budget := .nil
    good := fun p hp => by cases hp }
  fresh _ := ⟨rfl, rfl, rfl⟩
  fits := ⟨Nat.zero_le _, fun batch hb => (by cases hb), Nat.zero_le _, Nat.zero_le _⟩

omit [BEq P] in
theorem create_atRest (symbol : String) (options : TickContinuityOptions) :
    (create symbol options : TickRoute P).AtRest [] where
  orderly := create_orderly symbol options
  served hactive := by cases hactive
  rests hactive := by cases hactive

end TickRoute

end OptionX.MarketData
