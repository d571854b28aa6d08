import OptionX.MarketData.Lemmas.BarFrame
import OptionX.MarketData.Lemmas.BarRange

/-!
# A bar route and an authoritative provider

A bar route that waits for history, answered round by round by a provider that proves every range, does what the
rule of bar gaps says. Each round delivers what it takes out of the buffer.
-/

namespace OptionX.MarketData

namespace BarRoute

/-- A bar that was held back. -/
def caughtUp (bar : Bar) : Bar := { bar with flags := bar.flags.markLive true }

@[simp] theorem caughtUp_timeMs (bar : Bar) : (caughtUp bar).timeMs = bar.timeMs := rfl
@[simp] theorem caughtUp_caughtUp (bar : Bar) : caughtUp (caughtUp bar) = caughtUp bar := rfl

@[simp] theorem times_caughtUp (bars : List Bar) : times (bars.map caughtUp) = times bars := by
  simp [times, Function.comp_def]

/-! ## The rule of bar gaps -/

/-- Bars leave a gap when a whole timeframe is missing. A gap is asked for from its first slot to its last, up to
the limit per request, and what the limit cuts off is not asked for with it. -/
def barRule (timeframe maxBars : Nat) : GapRule where
  gap latest time :=
    let expected := saturatingAdd latest (timeframe * 1000)
    expected < time && expected ≤ time - timeframe * 1000
  range latest time :=
    let expected := saturatingAdd latest (timeframe * 1000)
    let toMs := requestStart (boundedTo timeframe expected (time - timeframe * 1000) maxBars)
    (requestStart expected, toMs, toMs)
  next toMs targetMs :=
    if timeframe * 1000 = 0 ∨ u64Max - timeframe * 1000 < toMs then none
    else
      let fromMs := requestStart (toMs + timeframe * 1000)
      let nextTo := requestStart (boundedTo timeframe (toMs + timeframe * 1000) targetMs maxBars)
      if fromMs = 0 ∨ nextTo < fromMs then none else some (fromMs, nextTo)
  resolve unresolved fromMs toMs more :=
    if unresolved ≠ 0 ∧ (unresolved < fromMs ∨ toMs < unresolved) then unresolved
    else if !more then 0
    else if 0 < timeframe * 1000 ∧ toMs ≤ u64Max - timeframe * 1000 then toMs + timeframe * 1000
    else toMs
  fresh confirmed fromMs toMs := confirmed < fromMs ∧ fromMs ≤ toMs
  range_le := by
    intro latest time _
    have h := (requestStart_le _).trans (boundedTo_le timeframe (saturatingAdd latest (timeframe * 1000))
      (time - timeframe * 1000) maxBars)
    exact ⟨h.trans (Nat.sub_le _ _), h.trans (Nat.sub_le _ _)⟩
  next_le := by
    intro toMs targetMs range h
    split at h
    · cases h
    · dsimp only at h
      split at h
      · cases h
      · cases h
        exact (requestStart_le _).trans (boundedTo_le _ _ _ _)
  fresh_lt := fun h => lt_of_lt_of_le h.1 h.2

def rule (s : BarRoute) : GapRule := barRule s.timeframe s.maxBackfillBars

theorem findGap_none (maxBars : Nat) {timeframe latest : Nat} {bars : List Bar}
    (h : findGap (timeframe * 1000) latest bars = none) :
    firstGap (barRule timeframe maxBars).gap latest (times bars) = none := by
  induction bars generalizing latest with
  | nil => rfl
  | cons bar bars ih =>
      simp only [findGap] at h
      simp only [times_cons, firstGap]
      split at h
      · rename_i h0
        rw [if_pos h0]
        exact ih (Option.map_eq_none_iff.mp h)
      · rename_i h0
        rw [if_neg h0]
        split at h
        · cases h
        · rename_i hgap
          rw [if_neg (by simpa [barRule] using hgap)]
          exact ih (Option.map_eq_none_iff.mp h)

theorem findGap_some (maxBars : Nat) {timeframe latest : Nat} {bars : List Bar} {gap}
    (h : findGap (timeframe * 1000) latest bars = some gap) :
    ∃ bar rest, gap.2.2.2 = bar :: rest ∧ bars = gap.1 ++ bar :: rest ∧
      gap.2.1 = saturatingAdd (latestOf latest (times gap.1)) (timeframe * 1000) ∧
      gap.2.2.1 = bar.timeMs - timeframe * 1000 ∧
      firstGap (barRule timeframe maxBars).gap latest (times bars) =
        some (latestOf latest (times gap.1), bar.timeMs, times rest) := by
  induction bars generalizing latest gap with
  | nil => cases h
  | cons bar bars ih =>
      simp only [findGap] at h
      simp only [times_cons, firstGap]
      split at h
      · rename_i h0
        obtain ⟨g, hg, rfl⟩ := Option.map_eq_some_iff.mp h
        obtain ⟨b, rest, h1, h2, h3, h4, h5⟩ := ih hg
        have hl : latestOf latest (times (bar :: g.1)) = latestOf latest (times g.1) := by
          simp [latestOf, h0]
        refine ⟨b, rest, h1, by rw [h2]; rfl, ?_, h4, ?_⟩
        · exact h3.trans (by rw [hl])
        · rw [if_pos h0, hl]
          exact h5
      · rename_i h0
        rw [if_neg h0]
        split at h
        · rename_i hgap
          cases h
          exact ⟨bar, bars, rfl, rfl, rfl, rfl, if_pos (by simpa [barRule] using hgap)⟩
        · rename_i hgap
          obtain ⟨g, hg, rfl⟩ := Option.map_eq_some_iff.mp h
          obtain ⟨b, rest, h1, h2, h3, h4, h5⟩ := ih hg
          refine ⟨b, rest, h1, by rw [h2]; rfl, h3, h4, ?_⟩
          rw [if_neg (by simpa [barRule] using hgap)]
          exact h5

/-- What shows a gap can be asked for. -/
theorem gap_request {s : BarRoute} (htf : 0 < s.timeframe) (htf' : s.timeframe < 2 ^ 31)
    {latest time : Nat} (hgap : s.rule.gap latest time = true) :
    ∃ pending, s.boundedRequest .gapBackfill true (saturatingAdd latest s.timeframeMs)
        (time - s.timeframeMs) = some pending ∧ pending.kind = .gapBackfill ∧
      pending.request.symbol = s.symbol ∧ pending.request.timeframe = s.timeframe ∧
      s.rule.range latest time = (pending.fromTimeMs, pending.toTimeMs, pending.toTimeMs) := by
  simp only [rule, barRule, Bool.and_eq_true, decide_eq_true_eq] at hgap
  have hu : saturatingAdd latest (s.timeframe * 1000) ≤ u64Max := by
    unfold saturatingAdd
    split
    · exact le_rfl
    · rename_i h
      simp only [u64Max] at h ⊢
      omega
  have hlarge : 1000 ≤ saturatingAdd latest (s.timeframe * 1000) := by
    unfold saturatingAdd
    split
    · simp [u64Max]
    · omega
  have hne := requestStart_ne_zero hlarge
  have hle := requestStart_mono (le_boundedTo s.timeframe s.maxBackfillBars hgap.2 hu)
  refine ⟨_, (boundedRequest_eq _ _ _ _ _).trans (if_neg ?_), rfl, rfl, rfl, rfl⟩
  simp only [timeframeMs]
  omega

/-! ## What the steps do to the route -/

/-- A batch of `n` bars can be held back. -/
def fits (s : BarRoute) (n : Nat) : Bool :=
  !(0 < s.maxBufferedBatches && s.maxBufferedBatches ≤ s.buffer.length) &&
    !(0 < s.maxBufferedItems && (s.maxBufferedItems < n || s.maxBufferedItems - n < s.bufferedItems))

theorem fits_iff {s : BarRoute} {n : Nat} :
    s.fits n = true ↔ ¬ (0 < s.maxBufferedBatches ∧ s.maxBufferedBatches ≤ s.buffer.length) ∧
      ¬ (0 < s.maxBufferedItems ∧
        (s.maxBufferedItems < n ∨ s.maxBufferedItems - n < s.bufferedItems)) := by
  simp only [fits, Bool.and_eq_true, Bool.not_eq_true', ← Bool.not_eq_true, Bool.or_eq_true,
    decide_eq_true_eq]

theorem bufferContinuityBatch_fits (s : BarRoute) (batch : BarDataBatch) (pushFront : Bool)
    (h : s.fits batch.items.length = true) :
    s.bufferContinuityBatch batch pushFront = (true, { route := { s with
      buffer := if pushFront then { batch with items := batch.items.map caughtUp } :: s.buffer
        else s.buffer ++ [{ batch with items := batch.items.map caughtUp }]
      bufferedItems := s.bufferedItems + batch.items.length } }) := by
  unfold bufferContinuityBatch
  dsimp only
  simp only [List.length_map]
  exact if_pos h

theorem bufferContinuityBatch_overflows (s : BarRoute) (batch : BarDataBatch) (pushFront : Bool)
    (h : s.fits batch.items.length = false) :
    (s.bufferContinuityBatch batch pushFront).1 = false ∧
      (s.bufferContinuityBatch batch pushFront).2.route.phase = .degraded ∧
      (s.bufferContinuityBatch batch pushFront).2.route.requestInFlight = false ∧
      (s.bufferContinuityBatch batch pushFront).2.request = none := by
  unfold bufferContinuityBatch
  dsimp only
  simp only [List.length_map]
  rw [if_neg (by rw [Bool.not_eq_true]; exact h)]
  exact ⟨rfl, rfl, rfl, rfl⟩

/-- The route at a gap: what shows it is held, and history from `fromMs` on is asked for. -/
def atGap (s : BarRoute) (batch : BarDataBatch) (processBuffered : Bool) (latestMs verifiedMs fromMs : Nat)
    (rest : List Bar) : BarRoute :=
  { s with
    lastObservedTimeMs := latestMs
    verifiedThroughTimeMs := verifiedMs
    buffer :=
      if processBuffered then { batch with items := rest.map caughtUp } :: s.buffer
      else s.buffer ++ [{ batch with items := rest.map caughtUp }]
    bufferedItems := s.bufferedItems + rest.length
    unverifiedFromTimeMs := unresolvedWith s.unverifiedFromTimeMs fromMs
    phase := .recovering, requestInFlight := true }

/-- A gap whose bars can be held back: the bars before it are delivered, the rest waits for the request. -/
theorem recoverGap_held {s : BarRoute} (batch : BarDataBatch) (processBuffered : Bool)
    {gap : List Bar × Nat × Nat × List Bar} {pending : PendingContinuityRequest}
    (hp : s.boundedRequest .gapBackfill true gap.2.1 gap.2.2.1 = some pending)
    (hfits : s.fits gap.2.2.2.length = true) :
    ∃ verified, s.recoverGap batch processBuffered gap = {
      route := s.atGap batch processBuffered (latestOf s.lastObservedTimeMs (times gap.1)) verified
        pending.fromTimeMs gap.2.2.2
      deliveries := if gap.1.isEmpty then [] else s.deliverBars gap.1
      request := some pending } := by
  obtain ⟨v, hv⟩ := s.recordBarProgress_eq gap.1
  refine ⟨v, ?_⟩
  unfold recoverGap
  rw [hp]
  dsimp only
  rw [bufferContinuityBatch_fits _ _ _ (by rw [hv]; exact hfits)]
  simp only [Bool.not_true, Bool.false_eq_true, if_false, markUnverified_eq, hv, atGap]

/-! ## A route that waits -/

/-- An active PREFILL_AND_RECOVER route whose buffer is counted and within its limits. -/
structure Serving (s : BarRoute) : Prop where
  active : s.entryPhase = .active
  alive : s.subscriberAlive = true
  mode : s.mode = .prefillAndRecover
  timeframe : 0 < s.timeframe
  timeframe_lt : s.timeframe < 2 ^ 31
  batches : ∀ batch ∈ s.buffer, s.matchesStream batch = true
  count : s.bufferedItems = (s.buffer.map (·.items.length)).sum
  batchLimit : 0 < s.maxBufferedBatches → s.buffer.length ≤ s.maxBufferedBatches
  itemLimit : 0 < s.maxBufferedItems → s.bufferedItems ≤ s.maxBufferedItems
  ids : ∀ o ∈ s.operations, o.id < s.nextOperation

/-- Such a route with no request under way. -/
structure Free (s : BarRoute) : Prop extends Serving s where
  free : s.requestInFlight = false
  quiet : ∀ o ∈ s.operations, o.generation ≠ s.generation

/-- Such a route that waits for an operation, the only one that still counts. -/
structure Awaits (s : BarRoute) (operation : ContinuityOperation) : Prop extends Serving s where
  inFlight : s.requestInFlight = true
  mem : operation ∈ s.operations
  generation : operation.generation = s.generation
  only : ∀ o ∈ s.operations, o.generation = s.generation → o = operation
  unique : ∀ o ∈ s.operations, o.id = operation.id → o = operation
  symbol : operation.pending.request.symbol = s.symbol
  sameTimeframe : operation.pending.request.timeframe = s.timeframe
  trusted : operation.pending.kind = .prefill → s.unverifiedFromTimeMs = 0

def heldTimes (s : BarRoute) : List (List Nat) := s.buffer.map (fun batch => times batch.items)

def heldBars (s : BarRoute) : List Bar := s.buffer.flatMap (fun batch => batch.items.map caughtUp)

/-- The request under way, as the rule sees it. Only a reconnect goes on to a target and settles held slots. -/
def inquiry (s : BarRoute) (operation : ContinuityOperation) : Inquiry :=
  let reconnect := operation.pending.kind == .reconnectBackfill
  { fromMs := operation.pending.fromTimeMs
    toMs := operation.pending.toTimeMs
    targetMs := if reconnect then s.reconnectTargetTimeMs else operation.pending.toTimeMs
    settles := reconnect
    latestMs := s.lastObservedTimeMs
    unresolvedMs := s.unverifiedFromTimeMs
    held := s.heldTimes }

/-- The slot of a held bar is settled by confirmed history. -/
def settledBy (settledThrough : Nat) (bar : Bar) : Bool := bar.timeMs != 0 && bar.timeMs ≤ settledThrough

def kept (settledThrough : Nat) (bars : List Bar) : List Bar :=
  (bars.map caughtUp).filter (fun bar => !settledBy settledThrough bar)

theorem times_kept (settledThrough : Nat) (bars : List Bar) :
    times (kept settledThrough bars) = unsettled settledThrough (times bars) := by
  simp only [times, kept, unsettled, settledBy, List.filter_map, List.map_map]
  rfl

theorem kept_zero (bars : List Bar) : kept 0 bars = bars.map caughtUp := by
  refine List.filter_eq_self.mpr fun bar _ => ?_
  by_cases h : bar.timeMs = 0 <;> simp [settledBy, h]

def requested : BarNotice → Option (Nat × Nat)
  | .request operation => some (operation.pending.fromTimeMs, operation.pending.toTimeMs)
  | _ => none

def delivered (ns : List BarNotice) : List Bar :=
  ns.flatMap fun
    | .bars items => items
    | _ => []

@[simp] theorem delivered_nil : delivered [] = [] := rfl
@[simp] theorem delivered_append (ns ns' : List BarNotice) :
    delivered (ns ++ ns') = delivered ns ++ delivered ns' := List.flatMap_append

theorem requested_notifyContinuity (s : BarRoute) (update : ContinuityUpdate) :
    (s.notifyContinuity update).filterMap requested = [] := by
  unfold notifyContinuity
  split <;> rfl

theorem requested_deliverBars (s : BarRoute) (items : List Bar) :
    (s.deliverBars items).filterMap requested = [] := by
  unfold deliverBars
  split <;> rfl

theorem delivered_deliverBars {s : BarRoute} (h : s.subscriberAlive = true) (items : List Bar) :
    delivered (s.deliverBars items) = items := by
  simp [deliverBars, h, delivered]

/-- Handing a request to the provider. -/
theorem requestContinuityHistory_eq {s : BarRoute} (hactive : s.entryPhase = .active)
    (hflight : s.requestInFlight = true) (pending : PendingContinuityRequest) :
    (s.requestContinuityHistory pending).1 = { s with
      operations := s.operations ++ [⟨s.nextOperation, pending, s.generation⟩]
      nextOperation := s.nextOperation + 1 } ∧
    (s.requestContinuityHistory pending).2.filterMap requested =
      [(pending.fromTimeMs, pending.toTimeMs)] := by
  unfold requestContinuityHistory
  rw [if_neg (by simp [active, hactive, hflight])]
  refine ⟨rfl, ?_⟩
  dsimp only
  simp only [List.filterMap_append, List.filterMap_cons, List.filterMap_nil, requested]
  cases pending.kind with
  | prefill => rfl
  | gapBackfill =>
      dsimp only
      split <;> simp only [List.filterMap_append, requested_notifyContinuity, List.nil_append]
  | reconnectBackfill => simp only [requested_notifyContinuity, List.nil_append]

/-- Routing marked bars past a gap, or into it. -/
def routeItems (s : BarRoute) (batch : BarDataBatch) (processBuffered : Bool) (items : List Bar) : Routed :=
  if items = [] then { route := s }
  else
    match if s.lastObservedTimeMs = 0 then none else findGap s.timeframeMs s.lastObservedTimeMs items with
    | some gap => s.recoverGap { batch with items } processBuffered gap
    | none => { route := s.recordBarProgress items, deliveries := s.deliverBars items }

/-- How a held batch is routed after a usable answer. -/
theorem routeHeld_eq {s : BarRoute} (hs : s.Free) {batch : BarDataBatch}
    (hb : s.matchesStream batch = true) (settledThrough : Nat) :
    s.routeBarToEntry batch true true settledThrough =
      s.routeItems batch true (kept settledThrough batch.items) := by
  have hactive : s.active = true := by simp [active, hs.active]
  have hitems : (if true && 0 < settledThrough then
      (batch.items.map (fun bar => { bar with flags := bar.flags.markLive true })).filter
        (fun bar => !(bar.timeMs != 0 && bar.timeMs ≤ settledThrough))
      else batch.items.map (fun bar => { bar with flags := bar.flags.markLive true })) =
      kept settledThrough batch.items := by
    split
    · rfl
    · rename_i h
      have h0 : settledThrough = 0 := by simpa using h
      rw [h0, kept_zero]
      rfl
  unfold routeBarToEntry routeItems
  by_cases hempty : batch.items = []
  · rw [if_pos (by simp [hempty]), if_pos (by simp [hempty, kept])]
  · rw [if_neg (by simp [hactive, hb, hs.alive, hempty])]
    dsimp only
    rw [hitems]
    by_cases hk : kept settledThrough batch.items = []
    · rw [if_pos (by simp [hk]), if_pos hk]
    · rw [if_neg (by simp [hk]), if_neg (by simp), if_neg hk]
      have hguard : (true && s.mode.recoversGaps && !s.requestInFlight && decide (0 < s.timeframe) &&
          decide (0 < s.lastObservedTimeMs)) = decide (s.lastObservedTimeMs ≠ 0) := by
        simp [hs.mode, hs.free, hs.timeframe, ContinuityMode.recoversGaps, Nat.pos_iff_ne_zero]
      rw [hguard]
      by_cases h0 : s.lastObservedTimeMs = 0
      · simp [h0]
      · cases findGap s.timeframeMs s.lastObservedTimeMs (kept settledThrough batch.items) <;> simp [h0]

/-- Bars without a gap are delivered; at a gap the bars before it are, the rest is held, and history is asked
for. -/
theorem routeItems_cases {s : BarRoute} (hs : s.Free) (batch : BarDataBatch) (processBuffered : Bool)
    (items : List Bar) :
    let r := s.routeItems batch processBuffered items
    ((s.lastObservedTimeMs = 0 ∨ firstGap s.rule.gap s.lastObservedTimeMs (times items) = none) ∧
        r.route = s.recordBarProgress items ∧ r.continuity = [] ∧ r.request = none ∧
        delivered r.deliveries = items ∧ r.deliveries.filterMap requested = []) ∨
      (s.lastObservedTimeMs ≠ 0 ∧ ∃ before bar rest pending, items = before ++ bar :: rest ∧
        firstGap s.rule.gap s.lastObservedTimeMs (times items) =
          some (latestOf s.lastObservedTimeMs (times before), bar.timeMs, times rest) ∧
        s.rule.range (latestOf s.lastObservedTimeMs (times before)) bar.timeMs =
          (pending.fromTimeMs, pending.toTimeMs, pending.toTimeMs) ∧
        pending.kind = .gapBackfill ∧ pending.request.symbol = s.symbol ∧
        pending.request.timeframe = s.timeframe ∧
        if s.fits (rest.length + 1) then
          (∃ verified, r.route = s.atGap batch processBuffered
            (latestOf s.lastObservedTimeMs (times before)) verified pending.fromTimeMs (bar :: rest)) ∧
          r.continuity = [] ∧ r.request = some pending ∧ delivered r.deliveries = before ∧
          r.deliveries.filterMap requested = []
        else r.route.phase = .degraded ∧ r.route.requestInFlight = false ∧ r.request = none) := by
  intro r
  by_cases hitems : items = []
  · have hr : r = { route := s } := if_pos hitems
    rw [hr, hitems]
    exact .inl ⟨.inr rfl, rfl, rfl, rfl, rfl, rfl⟩
  cases hgap : (if s.lastObservedTimeMs = 0 then none
      else findGap s.timeframeMs s.lastObservedTimeMs items) with
  | none =>
      have hr : r = { route := s.recordBarProgress items, deliveries := s.deliverBars items } := by
        simp only [r, routeItems, if_neg hitems, hgap]
      rw [hr]
      refine .inl ⟨?_, rfl, rfl, rfl, delivered_deliverBars hs.alive items, s.requested_deliverBars items⟩
      split at hgap
      · exact .inl ‹_›
      · exact .inr (findGap_none s.maxBackfillBars hgap)
  | some gap =>
      have hr : r = s.recoverGap { batch with items } processBuffered gap := by
        simp only [r, routeItems, if_neg hitems, hgap]
      rw [hr]
      have h0 : s.lastObservedTimeMs ≠ 0 := by
        intro h0
        simp [h0] at hgap
      rw [if_neg h0] at hgap
      obtain ⟨bar, rest, hrest, hitems, hfrom, hto, hfirst⟩ := findGap_some s.maxBackfillBars hgap
      obtain ⟨pending, hp, hkind, hsymbol, htimeframe, hrange⟩ :=
        gap_request hs.timeframe hs.timeframe_lt (firstGap_some hfirst).1
      rw [timeframeMs] at hp
      rw [← hfrom, ← hto] at hp
      refine .inr ⟨h0, gap.1, bar, rest, pending, hitems, hfirst, hrange, hkind, hsymbol, htimeframe, ?_⟩
      have hlen : gap.2.2.2.length = rest.length + 1 := by rw [hrest]; rfl
      split
      · rename_i hfits
        obtain ⟨v, hv⟩ := recoverGap_held { batch with items } processBuffered hp (by rw [hlen]; exact hfits)
        rw [hv, hrest]
        refine ⟨⟨v, rfl⟩, rfl, rfl, ?_, ?_⟩
        · dsimp only
          split
          · rename_i he
            rw [List.isEmpty_iff.mp he]
            rfl
          · exact delivered_deliverBars hs.alive _
        · dsimp only
          split
          · rfl
          · exact s.requested_deliverBars _
      · rename_i hfits
        obtain ⟨v, hv⟩ := s.recordBarProgress_eq gap.1
        have hover := bufferContinuityBatch_overflows (s.recordBarProgress gap.1)
          { batch with items := gap.2.2.2 } processBuffered (by
            rw [hv, hlen]
            exact Bool.eq_false_iff.mpr hfits)
        unfold recoverGap
        rw [hp]
        simp only [hover.1, Bool.not_false, if_true]
        exact ⟨hover.2.1, hover.2.2.1, hover.2.2.2⟩

end BarRoute

end OptionX.MarketData
