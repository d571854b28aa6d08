import OptionX.MarketData.Types

/-!
# A tick route of the market-data router

The continuity of one tick route, from `MarketDataRouter.ipp`. Ticks are events without a grid: ranges of history
are inclusive, overlap at their ends, and observations that come twice are recognised by their key. Prices are
only compared, so they are any type with a comparison.
-/

namespace OptionX.MarketData

/-- How ticks are told apart. A provider's default has been resolved when the route is made. -/
inductive TickDeduplicationMode where
  | timestamp | timeAndPrices | exactObservation
  deriving DecidableEq, Repr

structure Tick (P : Type) where
  ask : P
  bid : P
  last : P
  reference : P
  volume : P
  timeMs : Nat
  flags : PayloadFlags := {}
  deriving DecidableEq

structure TickDataBatch (P : Type) where
  symbol : String
  items : List (Tick P)
  deriving DecidableEq

structure TickHistoryRequest where
  symbol : String
  fromMs : Nat
  toMs : Nat
  deriving DecidableEq

structure TickHistoryResult (P : Type) where
  success : Bool
  rangeComplete : Bool := false
  errorDesc : String := ""
  symbol : String := ""
  ticks : List (Tick P) := []

structure PendingTickContinuityRequest where
  request : TickHistoryRequest
  kind : ContinuityRequestKind
  announceGap : Bool := false
  fromTimeMs : Nat
  toTimeMs : Nat
  requestedItems : Nat := 0
  attempt : Nat := 1
  deriving DecidableEq

structure TickContinuityOperation where
  id : Nat
  pending : PendingTickContinuityRequest
  generation : Nat
  deriving DecidableEq

inductive TickNotice (P : Type) where
  | ticks (items : List (Tick P))
  | continuity (update : ContinuityUpdate)
  | status (status : StreamStatus)
  | request (operation : TickContinuityOperation)
  deriving DecidableEq

/-- A routed tick subscription with its continuity options and state, and the grid of its provider's history
(zero for none). -/
structure TickRoute (P : Type) where
  symbol : String
  mode : ContinuityMode
  prefillLookbackMs : Nat := 0
  expectedIntervalMs : Nat := 1000
  maxBackfillMs : Nat := 60000
  retry : RetryPolicy := {}
  maxBufferedBatches : Nat := 1024
  maxBufferedItems : Nat := 100000
  deduplicationMode : TickDeduplicationMode := .exactObservation
  historyIntervalMs : Nat := 0
  entryPhase : EntryPhase := .pending
  subscriberAlive : Bool := true
  phase : ContinuityPhase := .live
  initialPrefillPending : Bool := false
  requestInFlight : Bool := false
  buffer : List (TickDataBatch P) := []
  bufferedItems : Nat := 0
  lastObservedTimeMs : Nat := 0
  verifiedThroughTimeMs : Nat := 0
  unverifiedFromTimeMs : Nat := 0
  initialPrefillBoundaryTimeMs : Nat := 0
  generation : Nat := 0
  reconnectTargetTimeMs : Nat := 0
  lastDeliveredTickTimeMs : Nat := 0
  lastDeliveredTickObservations : List (Tick P) := []
  retryRequest : Option PendingTickContinuityRequest := none
  retryAtMs : Nat := 0
  /-- The operations that the provider has not completed, and the next operation's identity. -/
  operations : List TickContinuityOperation := []
  nextOperation : Nat := 0

/-! ## Ranges of tick history -/

/-- The grid boundary at or before a time; `align_tick_history_end_time_ms` computes the same. -/
def alignTickHistoryTimeMs (timeMs intervalMs : Nat) : Nat :=
  if timeMs = 0 ∨ intervalMs = 0 then timeMs else timeMs - timeMs % intervalMs

def boundedTickHistoryToTimeMs (fromTimeMs targetTimeMs maxBackfillMs intervalMs : Nat) : Nat :=
  if maxBackfillMs = 0 then alignTickHistoryTimeMs targetTimeMs intervalMs
  else
    let bounded := saturatingAdd fromTimeMs (maxBackfillMs - 1)
    let targetEnd := alignTickHistoryTimeMs targetTimeMs intervalMs
    if targetEnd ≤ bounded then targetEnd
    else if intervalMs = 0 then bounded
    else
      let alignedBound := alignTickHistoryTimeMs bounded intervalMs
      if fromTimeMs ≤ alignedBound then alignedBound else fromTimeMs

/-- The range after the one that ends at `previousToTimeMs`. -/
def nextTickHistoryRange (previousToTimeMs targetTimeMs maxBackfillMs intervalMs : Nat) :
    Option (Nat × Nat) :=
  if targetTimeMs ≤ previousToTimeMs then none
  else
    let canOverlap := maxBackfillMs = 0 ∨
      (if intervalMs = 0 then 1 < maxBackfillMs else intervalMs < maxBackfillMs)
    let step := if 0 < intervalMs then intervalMs else 1
    if ¬ canOverlap ∧ u64Max - step < previousToTimeMs then none
    else
      let nextFrom := if canOverlap then previousToTimeMs else previousToTimeMs + step
      if targetTimeMs < nextFrom then none
      else
        let nextTo := boundedTickHistoryToTimeMs nextFrom targetTimeMs maxBackfillMs intervalMs
        let nextTo := if nextTo < nextFrom ∧ 0 < intervalMs then nextFrom else nextTo
        if nextFrom ≤ nextTo then some (nextFrom, nextTo) else none

/-- The first chunk of a range; on a grid it holds at least its first boundary. -/
def firstTickHistoryToTimeMs (fromTimeMs targetTimeMs maxBackfillMs intervalMs : Nat) : Nat :=
  let toTimeMs := boundedTickHistoryToTimeMs fromTimeMs targetTimeMs maxBackfillMs intervalMs
  if toTimeMs < fromTimeMs ∧ 0 < intervalMs then fromTimeMs else toTimeMs

/-- The first gap in a batch after the tick at `previousTimeMs`: the ticks before it, the time before it, and the
ticks from the one that shows it. -/
def findTickGap {P : Type} (intervalMs : Nat) :
    Nat → List (Tick P) → Option (List (Tick P) × Nat × Tick P × List (Tick P))
  | _, [] => none
  | previousTimeMs, tick :: ticks =>
      if tick.timeMs = 0 then
        (findTickGap intervalMs previousTimeMs ticks).map (fun g => (tick :: g.1, g.2))
      else if saturatingAdd previousTimeMs intervalMs < tick.timeMs then
        some ([], previousTimeMs, tick, ticks)
      else
        (findTickGap intervalMs (max previousTimeMs tick.timeMs) ticks).map (fun g => (tick :: g.1, g.2))

/-! ## Observations -/

section Observations

variable {P : Type} [BEq P]

/-- Two ticks with equal observation keys. -/
def sameTickObservation (mode : TickDeduplicationMode) (lhs rhs : Tick P) : Bool :=
  lhs.timeMs == rhs.timeMs &&
    match mode with
    | .timestamp => true
    | .timeAndPrices =>
        lhs.ask == rhs.ask && lhs.bid == rhs.bid && lhs.last == rhs.last && lhs.reference == rhs.reference
    | .exactObservation =>
        lhs.ask == rhs.ask && lhs.bid == rhs.bid && lhs.last == rhs.last && lhs.reference == rhs.reference &&
          lhs.volume == rhs.volume

def observedIn (mode : TickDeduplicationMode) (seen : List (Tick P)) (tick : Tick P) : Bool :=
  seen.any (fun other => sameTickObservation mode other tick)

/-- The first tick of each observation. -/
def deduplicateTickItems (mode : TickDeduplicationMode) (seen : List (Tick P)) :
    List (Tick P) → List (Tick P)
  | [] => []
  | tick :: ticks =>
      if observedIn mode seen tick then deduplicateTickItems mode seen ticks
      else tick :: deduplicateTickItems mode (tick :: seen) ticks

/-- Adds the observations at `timeMs` that are not there yet. -/
def addObservations (mode : TickDeduplicationMode) (timeMs : Nat) (observations : List (Tick P)) :
    List (Tick P) → List (Tick P)
  | [] => observations
  | tick :: ticks =>
      if tick.timeMs == timeMs && !observedIn mode observations tick then
        addObservations mode timeMs (observations ++ [tick]) ticks
      else addObservations mode timeMs observations ticks

end Observations

/-! ## The route -/

namespace TickRoute

variable {P : Type} [BEq P]

def active (s : TickRoute P) : Bool := s.entryPhase == .active

def notifyContinuity (s : TickRoute P) (update : ContinuityUpdate) : List (TickNotice P) :=
  if s.active && s.subscriberAlive then [.continuity update] else []

def deliverTicks (s : TickRoute P) (items : List (Tick P)) : List (TickNotice P) :=
  if s.subscriberAlive then [.ticks items] else []

/-- Hands a request to the provider and announces it. -/
def requestContinuityHistory (s : TickRoute P) (pending : PendingTickContinuityRequest) :
    TickRoute P × List (TickNotice P) :=
  if !s.active || !s.requestInFlight then (s, [])
  else
    let operation := ⟨s.nextOperation, pending, s.generation⟩
    let update (status : ContinuityStatus) (message : String) : List (TickNotice P) :=
      s.notifyContinuity {
        status, fromTimeMs := pending.fromTimeMs, toTimeMs := pending.toTimeMs
        requestedItems := pending.requestedItems, message }
    let announced :=
      match pending.kind with
      | .prefill => []
      | .gapBackfill =>
          (if pending.announceGap then
            update .gapDetected "A gap was detected in the live tick stream." else []) ++
          update .backfilling "Requesting historical ticks for the detected gap."
      | .reconnectBackfill => update .backfilling "Revalidating observed ticks after reconnect."
    ({ s with operations := s.operations ++ [operation], nextOperation := s.nextOperation + 1 },
      announced ++ [.request operation])

/-! ## The trust watermarks -/

def markUnverified (s : TickRoute P) (fromTimeMs : Nat) : TickRoute P :=
  if fromTimeMs = 0 then s
  else if s.unverifiedFromTimeMs = 0 ∨ fromTimeMs < s.unverifiedFromTimeMs then
    { s with unverifiedFromTimeMs := fromTimeMs }
  else s

def recordVerifiedRange (s : TickRoute P) (fromTimeMs toTimeMs : Nat) : TickRoute P :=
  if fromTimeMs = 0 ∨ toTimeMs < fromTimeMs then s
  else if s.unverifiedFromTimeMs ≠ 0 ∧
      (s.unverifiedFromTimeMs < fromTimeMs ∨ toTimeMs < s.unverifiedFromTimeMs) then s
  else
    { s with verifiedThroughTimeMs := max s.verifiedThroughTimeMs toTimeMs, unverifiedFromTimeMs := 0 }

def observeTick (s : TickRoute P) (tick : Tick P) : TickRoute P :=
  { s with
    lastObservedTimeMs := max s.lastObservedTimeMs tick.timeMs
    verifiedThroughTimeMs :=
      if s.unverifiedFromTimeMs = 0 then max s.verifiedThroughTimeMs tick.timeMs
      else s.verifiedThroughTimeMs }

def latestTimeMs (ticks : List (Tick P)) : Nat := ticks.foldl (fun latest tick => max latest tick.timeMs) 0

/-- The observations of the latest delivered instant. -/
def rememberDelivery (s : TickRoute P) (ticks : List (Tick P)) : TickRoute P :=
  let latest := latestTimeMs ticks
  if latest = 0 ∨ latest < s.lastDeliveredTickTimeMs then s
  else
    { s with
      lastDeliveredTickTimeMs := latest
      lastDeliveredTickObservations :=
        addObservations s.deduplicationMode latest
          (if s.lastDeliveredTickTimeMs < latest then [] else s.lastDeliveredTickObservations) ticks }

def recordTickProgress (s : TickRoute P) (ticks : List (Tick P)) : TickRoute P :=
  (ticks.foldl observeTick s).rememberDelivery ticks

/-! ## Live ticks -/

/-- What routing one batch does: the route, the updates, the deliveries, and the request it calls for. -/
structure Routed (P : Type) where
  route : TickRoute P
  continuity : List (TickNotice P) := []
  deliveries : List (TickNotice P) := []
  request : Option PendingTickContinuityRequest := none

/-- Everything held back is delivered, one batch after the other. -/
def releaseBuffer (s : TickRoute P) : List (TickDataBatch P) → TickRoute P × List (TickNotice P)
  | [] => (s, [])
  | batch :: batches =>
      let rest := (s.recordTickProgress batch.items).releaseBuffer batches
      (rest.1, s.deliverTicks batch.items ++ rest.2)

/-- Holds a batch back, if the limits allow it; beyond them the route gives up on continuity. -/
def bufferContinuityBatch (s : TickRoute P) (batch : TickDataBatch P) (pushFront : Bool) :
    Bool × Routed P :=
  let batch := { batch with
    items := batch.items.map (fun tick => { tick with flags := tick.flags.markLive true }) }
  let batchItems := batch.items.length
  let exceedsBatchLimit := 0 < s.maxBufferedBatches && s.maxBufferedBatches ≤ s.buffer.length
  let exceedsItemLimit := 0 < s.maxBufferedItems &&
    (s.maxBufferedItems < batchItems || s.maxBufferedItems - batchItems < s.bufferedItems)
  if !exceedsBatchLimit && !exceedsItemLimit then
    (true, { route := { s with
      buffer := if pushFront then batch :: s.buffer else s.buffer ++ [batch]
      bufferedItems := s.bufferedItems + batchItems } })
  else
    let released := s.releaseBuffer s.buffer
    (false, {
      route := { released.1.recordTickProgress batch.items with
        buffer := [], bufferedItems := 0, phase := .degraded, initialPrefillPending := false
        requestInFlight := false, reconnectTargetTimeMs := 0, retryRequest := none, retryAtMs := 0
        mode := .liveOnly }
      deliveries := released.2 ++ s.deliverTicks batch.items
      continuity := [
        .continuity { status := .failed, message :=
          "Tick continuity buffer limit exceeded; live delivery continues." },
        .continuity { status := .degraded, message :=
          "Live tick delivery resumed without verified continuity after buffer overflow." }] })

/-- The request for the gap between two observed times. -/
def gapRequest (s : TickRoute P) (previousTimeMs tickTimeMs : Nat) : Option PendingTickContinuityRequest :=
  let fromTimeMs := alignTickHistoryTimeMs previousTimeMs s.historyIntervalMs
  let toTimeMs := firstTickHistoryToTimeMs fromTimeMs tickTimeMs s.maxBackfillMs s.historyIntervalMs
  if toTimeMs < fromTimeMs then none
  else some {
    request := ⟨s.symbol, fromTimeMs, toTimeMs⟩, kind := .gapBackfill, announceGap := true
    fromTimeMs, toTimeMs }

/-- A gap in a batch: what comes before it is delivered, the rest is held back, and history is asked for. -/
def recoverGap (s : TickRoute P) (batch : TickDataBatch P) (processBuffered : Bool)
    (gap : List (Tick P) × Nat × Tick P × List (Tick P)) : Routed P :=
  match s.gapRequest gap.2.1 gap.2.2.1.timeMs with
  | none => { route := s }
  | some pending =>
      let delivered := if gap.1.isEmpty then [] else s.deliverTicks gap.1
      let progressed := if gap.1.isEmpty then s else s.recordTickProgress gap.1
      let held := progressed.bufferContinuityBatch
        { batch with items := gap.2.2.1 :: gap.2.2.2 } processBuffered
      if !held.1 then { held.2 with deliveries := delivered ++ held.2.deliveries }
      else
        { route := { held.2.route.markUnverified pending.fromTimeMs with
            phase := .recovering, requestInFlight := true, reconnectTargetTimeMs := gap.2.2.1.timeMs }
          deliveries := delivered
          request := some pending }

/-- `route_tick_to_entry_no_lock`, for a live batch and for one that was held back. -/
def routeTickToEntry (s : TickRoute P) (batch : TickDataBatch P)
    (processBuffered allowGapRecovery : Bool) : Routed P :=
  if !s.active || batch.symbol != s.symbol || !s.subscriberAlive || batch.items.isEmpty then { route := s }
  else
    let items := batch.items.map (fun tick => { tick with flags := tick.flags.markLive processBuffered })
    if s.mode.enabled && !processBuffered && s.phase.buffersLiveData then
      (s.bufferContinuityBatch { batch with items } false).2
    else
      let gap :=
        if allowGapRecovery && s.mode.recoversGaps && !s.requestInFlight && 0 < s.expectedIntervalMs &&
            0 < s.lastObservedTimeMs then
          findTickGap s.expectedIntervalMs s.lastObservedTimeMs items
        else none
      match gap with
      | some gap => s.recoverGap { batch with items } processBuffered gap
      | none => { route := s.recordTickProgress items, deliveries := s.deliverTicks items }

def routeTicks (s : TickRoute P) (batch : TickDataBatch P) : TickRoute P × List (TickNotice P) :=
  let r := s.routeTickToEntry batch false true
  match r.request with
  | none => (r.route, r.continuity ++ r.deliveries)
  | some pending =>
      let requested := r.route.requestContinuityHistory pending
      (requested.1, r.continuity ++ r.deliveries ++ requested.2)

/-! ## Prefill and reconnect -/

/-- The boundary of the prefill, which a restarted prefill keeps. -/
def prefillBoundary (s : TickRoute P) (clock : RouteClock) : Nat :=
  if s.initialPrefillBoundaryTimeMs = 0 then alignTickHistoryTimeMs clock.providerTimeMs s.historyIntervalMs
  else s.initialPrefillBoundaryTimeMs

/-- Where the prefill has to end: a restarted one reaches the present. -/
def prefillTarget (s : TickRoute P) (clock : RouteClock) : Nat :=
  max (s.prefillBoundary clock) (alignTickHistoryTimeMs clock.providerTimeMs s.historyIntervalMs)

def prefillFrom (s : TickRoute P) (clock : RouteClock) : Nat :=
  let boundary := s.prefillBoundary clock
  let requestedFrom := if s.prefillLookbackMs < boundary then boundary - s.prefillLookbackMs else 1
  let aligned := alignTickHistoryTimeMs requestedFrom s.historyIntervalMs
  if aligned = 0 ∧ 0 < s.historyIntervalMs ∧ s.historyIntervalMs ≤ s.prefillTarget clock then
    s.historyIntervalMs
  else aligned

def startContinuity (s : TickRoute P) (clock : RouteClock) : TickRoute P × List (TickNotice P) :=
  if !s.active || !s.initialPrefillPending || s.phase != .prefilling || s.prefillLookbackMs == 0 ||
      s.requestInFlight then (s, [])
  else
    let fromTimeMs := s.prefillFrom clock
    let toTimeMs := firstTickHistoryToTimeMs fromTimeMs (s.prefillTarget clock) s.maxBackfillMs
      s.historyIntervalMs
    let bounded := { s with
      initialPrefillBoundaryTimeMs := s.prefillBoundary clock
      reconnectTargetTimeMs := s.prefillTarget clock }
    if toTimeMs < fromTimeMs then (bounded, [])
    else
      let pending : PendingTickContinuityRequest := {
        request := ⟨s.symbol, fromTimeMs, toTimeMs⟩, kind := .prefill, fromTimeMs, toTimeMs }
      let requested := { bounded with
        phase := .prefilling, requestInFlight := true }.requestContinuityHistory pending
      (requested.1,
        s.notifyContinuity {
          status := .prefilling, fromTimeMs, toTimeMs
          message := "Requesting observed tick history prefill." } ++ requested.2)

def bufferedTimes (s : TickRoute P) : List Nat :=
  (s.buffer.flatMap (·.items.map (·.timeMs))).filter (· != 0)

def observedTimeMs (s : TickRoute P) : Nat := max s.lastObservedTimeMs (s.bufferedTimes.max?.getD 0)

/-- The start of the range that a reconnect has to recover; zero when there is none. -/
def reconnectFrom (s : TickRoute P) : Nat :=
  let earliestBufferedTimeMs := s.bufferedTimes.min?.getD 0
  if s.unverifiedFromTimeMs ≠ 0 then s.unverifiedFromTimeMs
  else if 0 < s.verifiedThroughTimeMs then s.verifiedThroughTimeMs
  else if 0 < earliestBufferedTimeMs then earliestBufferedTimeMs
  else s.observedTimeMs

def startReconnectRecovery (s : TickRoute P) (clock : RouteClock) : TickRoute P × List (TickNotice P) :=
  if !s.active || s.phase != .recovering || !s.mode.recoversGaps || s.initialPrefillPending ||
      s.requestInFlight then (s, [])
  else
    let targetTimeMs := max s.observedTimeMs clock.providerTimeMs
    let fromTimeMs := alignTickHistoryTimeMs s.reconnectFrom s.historyIntervalMs
    let toTimeMs := firstTickHistoryToTimeMs fromTimeMs targetTimeMs s.maxBackfillMs s.historyIntervalMs
    if fromTimeMs = 0 ∨ targetTimeMs < fromTimeMs then
      ({ s with
          phase := if s.unverifiedFromTimeMs = 0 then .live else .degraded
          reconnectTargetTimeMs := 0 },
        s.notifyContinuity (if s.unverifiedFromTimeMs = 0 then
          { status := .live, message := "No observed ticks required reconnect recovery." }
        else
          { status := .degraded, message :=
            "Reconnect recovery could not prove the unresolved tick range." }))
    else if toTimeMs < fromTimeMs then (s, [])
    else
      { s with
        reconnectTargetTimeMs := targetTimeMs, phase := .recovering
        requestInFlight := true }.requestContinuityHistory {
          request := ⟨s.symbol, fromTimeMs, toTimeMs⟩, kind := .reconnectBackfill, fromTimeMs, toTimeMs }

/-! ## Completion of a history request -/

/-- What a history response is worth; `items` are its observations, each once. -/
structure HistoryVerdict (P : Type) where
  success : Bool
  streamMatches : Bool
  rangeValid : Bool
  usable : Bool
  errorDesc : String
  items : List (Tick P)

/-- Times within the range, in order. -/
def orderedWithin (fromTimeMs toTimeMs : Nat) : Nat → List (Tick P) → Bool
  | _, [] => true
  | previousTimeMs, tick :: ticks =>
      fromTimeMs ≤ tick.timeMs && tick.timeMs ≤ toTimeMs &&
        (previousTimeMs == 0 || previousTimeMs ≤ tick.timeMs) &&
        orderedWithin fromTimeMs toTimeMs tick.timeMs ticks

/-- `tick_history_covers_range`. -/
def historyCoversRange (items : List (Tick P)) (fromTimeMs toTimeMs : Nat) : Bool :=
  fromTimeMs != 0 && fromTimeMs ≤ toTimeMs && orderedWithin fromTimeMs toTimeMs 0 items

/-- The items of `make_tick_batch` for a response. -/
def historyItems (result : TickHistoryResult P) (backfillMarks : Bool) : List (Tick P) :=
  result.ticks.map (fun tick => { tick with flags := tick.flags.markHistorical backfillMarks })

def judge (s : TickRoute P) (pending : PendingTickContinuityRequest) (result : TickHistoryResult P) :
    HistoryVerdict P :=
  let streamMatches := result.success && (result.symbol.isEmpty || result.symbol == s.symbol)
  let rangeValid :=
    streamMatches && orderedWithin pending.fromTimeMs pending.toTimeMs 0 result.ticks
  let items :=
    if rangeValid then
      deduplicateTickItems s.deduplicationMode [] (historyItems result (pending.kind != .prefill))
    else []
  { success := result.success
    streamMatches, rangeValid
    usable := result.success && streamMatches &&
      (rangeValid && historyCoversRange items pending.fromTimeMs pending.toTimeMs) && result.rangeComplete
    errorDesc := result.errorDesc
    items }

def HistoryVerdict.failureMessage (v : HistoryVerdict P) : String :=
  if !v.errorDesc.isEmpty then v.errorDesc
  else if !v.success then "Historical tick continuity request failed."
  else if !v.streamMatches then "Historical tick response does not match the subscribed symbol."
  else if !v.rangeValid then "Historical tick response is outside the requested range or unordered."
  else "Historical tick response does not prove the requested range is complete."

def scheduleRetry (s : TickRoute P) (pending : PendingTickContinuityRequest) (clock : RouteClock) :
    TickRoute P × List (TickNotice P) :=
  ({ s with
      retryRequest := some { pending with announceGap := false, attempt := pending.attempt + 1 }
      retryAtMs := retryAt s.retry pending.attempt clock.steadyMs
      phase := if pending.kind == .prefill then .prefilling else .recovering },
    s.notifyContinuity {
      status := .retrying, fromTimeMs := pending.fromTimeMs, toTimeMs := pending.toTimeMs
      requestedItems := pending.requestedItems
      message := "Retrying historical tick continuity request." })

/-- The trust bookkeeping of a finished request. -/
def settleHistory (s : TickRoute P) (pending : PendingTickContinuityRequest) (v : HistoryVerdict P) :
    TickRoute P :=
  if v.usable then s.recordVerifiedRange pending.fromTimeMs pending.toTimeMs
  else
    let prefill := pending.kind == .prefill
    { s with initialPrefillPending := s.initialPrefillPending && !prefill }.markUnverified
      pending.fromTimeMs

/-- What is held back without the observations that history has brought. -/
def withoutObserved (mode : TickDeduplicationMode) (history : List (Tick P))
    (batches : List (TickDataBatch P)) : List (TickDataBatch P) :=
  (batches.map (fun batch =>
    { batch with items := batch.items.filter (fun tick => !observedIn mode history tick) })).filter
      (fun batch => !batch.items.isEmpty)

/-- The history that has not been delivered yet. -/
def withoutDelivered (s : TickRoute P) (items : List (Tick P)) : List (Tick P) :=
  if s.lastDeliveredTickTimeMs = 0 then items
  else items.filter (fun tick => !observedIn s.deduplicationMode s.lastDeliveredTickObservations tick)

/-- Observations of the history leave the buffer, and those not yet delivered are delivered; also answers how
many. -/
def deliverHistory (s : TickRoute P) (items : List (Tick P)) :
    TickRoute P × List (TickNotice P) × Nat :=
  if items.isEmpty then (s, [], 0)
  else
    let buffer := withoutObserved s.deduplicationMode items s.buffer
    let s := { s with buffer, bufferedItems := (buffer.map (·.items.length)).sum }
    let items := s.withoutDelivered items
    if items.isEmpty then (s, [], 0) else (s.recordTickProgress items, s.deliverTicks items, items.length)

/-- The end of a recovery, with nothing left to flush. -/
def finishRecovery (s : TickRoute P) (pending : PendingTickContinuityRequest) (v : HistoryVerdict P)
    (deliveredItems : Nat) : TickRoute P × List (TickNotice P) :=
  let verified := v.usable && s.unverifiedFromTimeMs == 0
  ({ s with phase := if verified then .live else .degraded, reconnectTargetTimeMs := 0 },
    if !s.mode.enabled then []
    else s.notifyContinuity {
      status := if verified then .live else .degraded
      fromTimeMs := pending.fromTimeMs, toTimeMs := pending.toTimeMs
      requestedItems := pending.requestedItems, deliveredItems
      message :=
        if verified then "Historical tick continuity is ready."
        else "Live tick delivery continues without verified continuity." })

/-- Routes the batches that were held back, until one of them shows a gap; `fuel` bounds their number. -/
def flushBuffer (pending : PendingTickContinuityRequest) (v : HistoryVerdict P) (deliveredItems : Nat) :
    Nat → TickRoute P → TickRoute P × List (TickNotice P)
  | 0, s => (s, [])
  | fuel + 1, s =>
      match s.buffer with
      | [] => s.finishRecovery pending v deliveredItems
      | batch :: buffer =>
          let r := { s with
            buffer, bufferedItems := s.bufferedItems - batch.items.length }.routeTickToEntry batch true
              v.usable
          let next := match r.request with
            | some next => r.route.requestContinuityHistory next
            | none => flushBuffer pending v deliveredItems fuel r.route
          (next.1, r.continuity ++ r.deliveries ++ next.2)

/-- The next chunk after a usable answer, if its target is not reached. -/
inductive NextChunk where
  | request (pending : PendingTickContinuityRequest)
  | stop
  | flush

def nextChunk (s : TickRoute P) (pending : PendingTickContinuityRequest) (v : HistoryVerdict P) :
    NextChunk :=
  let historyTarget := alignTickHistoryTimeMs s.reconnectTargetTimeMs s.historyIntervalMs
  let prefill := pending.kind == .prefill
  let target :=
    if prefill && historyTarget == 0 then s.initialPrefillBoundaryTimeMs else historyTarget
  if v.usable && pending.toTimeMs < target then
    match nextTickHistoryRange pending.toTimeMs target s.maxBackfillMs s.historyIntervalMs with
    | some next => .request {
        request := ⟨s.symbol, next.1, next.2⟩, kind := pending.kind
        fromTimeMs := next.1, toTimeMs := next.2 }
    | none => if prefill then .flush else .stop
  else .flush

/-- Goes on after a finished request: asks for the next chunk, or flushes. -/
def continueRecovery (s : TickRoute P) (pending : PendingTickContinuityRequest) (v : HistoryVerdict P)
    (deliveredItems : Nat) : TickRoute P × List (TickNotice P) :=
  match s.nextChunk pending v with
  | .request next =>
      let prefill := pending.kind == .prefill
      let requested := { s with
        phase := if prefill then .prefilling else .recovering
        requestInFlight := true }.requestContinuityHistory next
      (requested.1,
        (if prefill then s.notifyContinuity {
          status := .prefilling, fromTimeMs := next.fromTimeMs, toTimeMs := next.toTimeMs
          message := "Requesting the next historical tick prefill chunk." } else []) ++ requested.2)
  | .stop => (s, [])
  | .flush =>
      flushBuffer pending v deliveredItems (s.buffer.length + 1) { s with
        initialPrefillPending :=
          s.initialPrefillPending && !(v.usable && pending.kind == .prefill) }

/-- A finished request: its verdict is recorded and reported, its ticks delivered, and the route goes on. -/
def finishHistory (s : TickRoute P) (pending : PendingTickContinuityRequest) (v : HistoryVerdict P) :
    TickRoute P × List (TickNotice P) :=
  let settled := s.settleHistory pending v
  let failed :=
    if v.usable then []
    else settled.notifyContinuity {
      status := .failed, fromTimeMs := pending.fromTimeMs, toTimeMs := pending.toTimeMs
      requestedItems := pending.requestedItems, deliveredItems := v.items.length
      message := v.failureMessage }
  let delivered := settled.deliverHistory v.items
  let next := delivered.1.continueRecovery pending v delivered.2.2
  (next.1, failed ++ delivered.2.1 ++ next.2)

/-- Whether a completion is still the route's current one. -/
def current (s : TickRoute P) (operation : TickContinuityOperation) : Bool :=
  s.active && s.requestInFlight && s.generation == operation.generation

/-- Whether a response is answered by another attempt. -/
def retries (s : TickRoute P) (pending : PendingTickContinuityRequest) (v : HistoryVerdict P) : Bool :=
  !v.success && pending.attempt < s.retry.maxAttempts

def completeContinuity (s : TickRoute P) (operation : TickContinuityOperation)
    (result : TickHistoryResult P) (clock : RouteClock) : TickRoute P × List (TickNotice P) :=
  if !s.current operation then (s, [])
  else
    let flushing := { s with requestInFlight := false, phase := .flushing }
    let v := s.judge operation.pending result
    if s.retries operation.pending v then flushing.scheduleRetry operation.pending clock
    else flushing.finishHistory operation.pending v

/-! ## Transport statuses -/

/-- The trust that a transport loss takes back. -/
def invalidateTrust (s : TickRoute P) : TickRoute P :=
  if !s.mode.recoversGaps then s
  else if s.initialPrefillPending && 0 < s.initialPrefillBoundaryTimeMs then
    s.markUnverified s.initialPrefillBoundaryTimeMs
  else if 0 < s.verifiedThroughTimeMs then s.markUnverified s.verifiedThroughTimeMs
  else s.markUnverified s.lastObservedTimeMs

/-- What a status starts on a waiting route. -/
inductive Work where
  | prefill | reconnect
  deriving DecidableEq

/-- The transport is lost: what was asked for is void, and the route waits. -/
def loseTransport (s : TickRoute P) : TickRoute P :=
  { { s with
      generation := s.generation + 1, requestInFlight := false, retryRequest := none, retryAtMs := 0
      reconnectTargetTimeMs := 0 }.invalidateTrust with phase := .waitingForReady }

/-- The transport is ready: a route that waits goes on. -/
def resumeTransport (s : TickRoute P) : TickRoute P × Option Work :=
  if s.phase == .waitingForReady && !s.requestInFlight then
    if s.initialPrefillPending then ({ s with phase := .prefilling }, some .prefill)
    else if s.mode.recoversGaps then ({ s with phase := .recovering }, some .reconnect)
    else (s, none)
  else (s, none)

/-- `apply_stream_status_to_entry_no_lock`. -/
def applyStreamStatus (s : TickRoute P) (status : StreamStatus) :
    TickRoute P × List (TickNotice P) × Option Work :=
  let needsTransportRecovery := s.initialPrefillPending || s.mode.recoversGaps
  if s.mode.enabled && needsTransportRecovery && status.invalidatesContinuity then
    (s.loseTransport,
      if s.phase != .waitingForReady && s.subscriberAlive then
        [.continuity {
          status := .stale, message := "Transport loss invalidated tick continuity." }]
      else [], none)
  else if s.mode.enabled && status == .ready then
    (s.resumeTransport.1, [], s.resumeTransport.2)
  else (s, [], none)

def startWork (s : TickRoute P) (work : Option Work) (clock : RouteClock) :
    TickRoute P × List (TickNotice P) :=
  match work with
  | none => (s, [])
  | some .prefill => s.startContinuity clock
  | some .reconnect => s.startReconnectRecovery clock

def routedStatus (s : TickRoute P) (status : StreamStatus) : List (TickNotice P) :=
  if s.subscriberAlive then [.status status] else []

def routeStatus (s : TickRoute P) (status : StreamStatus) (clock : RouteClock) :
    TickRoute P × List (TickNotice P) :=
  if !s.active then (s, [])
  else
    let applied := s.applyStreamStatus status
    let started := applied.1.startWork applied.2.2 clock
    (started.1, s.routedStatus status ++ applied.2.1 ++ started.2)

/-! ## The route's events -/

/-- The provider's cached status, if there is one. -/
def replayStatus (s : TickRoute P) (replay : Option StreamStatus) :
    TickRoute P × List (TickNotice P) × Option Work :=
  match replay with
  | none => (s, [], none)
  | some status => s.applyStreamStatus status

/-- A confirmed subscription: the cached transport status is applied before the prefill starts, and told to the
subscriber after. -/
def completeSubscribe (s : TickRoute P) (replay : Option StreamStatus) (clock : RouteClock) :
    TickRoute P × List (TickNotice P) :=
  if s.entryPhase != .pending then (s, [])
  else
    let s := { s with entryPhase := .active }
    let applied := s.replayStatus replay
    let prefill :=
      if 0 < s.prefillLookbackMs then applied.1.startContinuity clock else (applied.1, [])
    let started := prefill.1.startWork applied.2.2 clock
    (started.1, prefill.2 ++ (replay.map s.routedStatus).getD [] ++ applied.2.1 ++ started.2)

/-- Makes a failed request again. -/
def retryHistory (s : TickRoute P) (pending : PendingTickContinuityRequest) :
    TickRoute P × List (TickNotice P) :=
  let phase : ContinuityPhase := if pending.kind == .prefill then .prefilling else .recovering
  { s with phase, retryRequest := none, retryAtMs := 0, requestInFlight := true }.requestContinuityHistory
    pending

/-- `process`: a retry that is due, or a recovery that waits. -/
def process (s : TickRoute P) (clock : RouteClock) : TickRoute P × List (TickNotice P) :=
  if !s.active || s.requestInFlight then (s, [])
  else
    match s.retryRequest with
    | some pending => if clock.steadyMs < s.retryAtMs then (s, []) else s.retryHistory pending
    | none =>
        if s.mode.recoversGaps && s.phase == .recovering && !s.initialPrefillPending then
          s.startReconnectRecovery clock
        else (s, [])

/-- The provider's first answer to an operation; later ones find nothing. -/
def completeOperation (s : TickRoute P) (id : Nat) (result : TickHistoryResult P) (clock : RouteClock) :
    TickRoute P × List (TickNotice P) :=
  match s.operations.find? (·.id == id) with
  | none => (s, [])
  | some operation =>
      { s with operations := s.operations.filter (·.id != id) }.completeContinuity operation result clock

inductive Event (P : Type) where
  | subscribed (replay : Option StreamStatus) (clock : RouteClock)
  | ticks (batch : TickDataBatch P)
  | status (status : StreamStatus) (clock : RouteClock)
  | history (id : Nat) (result : TickHistoryResult P) (clock : RouteClock)
  | process (clock : RouteClock)
  | unsubscribe
  | subscriberGone

def step (s : TickRoute P) : Event P → TickRoute P × List (TickNotice P)
  | .subscribed replay clock => s.completeSubscribe replay clock
  | .ticks batch => s.routeTicks batch
  | .status status clock => s.routeStatus status clock
  | .history id result clock => s.completeOperation id result clock
  | .process clock => s.process clock
  | .unsubscribe => ({ s with entryPhase := .unsubscribing }, [])
  | .subscriberGone => ({ s with subscriberAlive := false }, [])

end TickRoute

/-- The options of a tick subscription, with its provider's history grid. -/
structure TickContinuityOptions where
  mode : ContinuityMode
  prefillLookbackMs : Nat := 0
  expectedIntervalMs : Nat := 1000
  maxBackfillMs : Nat := 60000
  retry : RetryPolicy := {}
  maxBufferedBatches : Nat := 1024
  maxBufferedItems : Nat := 100000
  deduplicationMode : TickDeduplicationMode := .exactObservation
  historyIntervalMs : Nat := 0

def TickContinuityOptions.valid (options : TickContinuityOptions) : Bool :=
  options.retry.valid &&
    match options.mode with
    | .liveOnly => options.prefillLookbackMs == 0
    | .prefill => 0 < options.prefillLookbackMs
    | .prefillAndRecover => 0 < options.expectedIntervalMs

/-- `add_pending_entry` for a tick subscription. -/
def TickRoute.create {P : Type} (symbol : String) (options : TickContinuityOptions) : TickRoute P where
  symbol := symbol
  mode := options.mode
  prefillLookbackMs := options.prefillLookbackMs
  expectedIntervalMs := options.expectedIntervalMs
  maxBackfillMs := options.maxBackfillMs
  retry := options.retry
  maxBufferedBatches := options.maxBufferedBatches
  maxBufferedItems := options.maxBufferedItems
  deduplicationMode := options.deduplicationMode
  historyIntervalMs := options.historyIntervalMs
  initialPrefillPending := options.mode.enabled && 0 < options.prefillLookbackMs
  phase := if options.mode.enabled && 0 < options.prefillLookbackMs then .prefilling else .live

end OptionX.MarketData
