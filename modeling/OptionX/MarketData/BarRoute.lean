import OptionX.MarketData.Types

/-!
# A bar route of the market-data router

The continuity of one bar route, from `MarketDataRouter.ipp`. Events are handled one at a time. A step answers
with what the route sends: to its subscriber, and to the provider as history requests.
-/

namespace OptionX.MarketData

structure Bar where
  timeMs : Nat
  flags : PayloadFlags := {}
  deriving DecidableEq

structure BarDataBatch where
  symbol : String
  timeframe : Nat
  items : List Bar
  deriving DecidableEq

/-- The provider's history interface counts in seconds. -/
structure BarHistoryRequest where
  symbol : String
  timeframe : Nat
  fromTs : Nat
  toTs : Nat
  deriving DecidableEq

structure BarHistoryResult where
  success : Bool
  rangeComplete : Bool := false
  errorDesc : String := ""
  symbol : String := ""
  timeframe : Nat := 0
  bars : List Bar := []

structure PendingContinuityRequest where
  request : BarHistoryRequest
  kind : ContinuityRequestKind
  announceGap : Bool := false
  fromTimeMs : Nat
  toTimeMs : Nat
  requestedItems : Nat
  attempt : Nat := 1
  deriving DecidableEq

/-- A history request that the provider has been given and has not answered yet. -/
structure ContinuityOperation where
  id : Nat
  pending : PendingContinuityRequest
  generation : Nat
  deriving DecidableEq

/-- What a route sends: bars, continuity updates and transport statuses to its subscriber, history requests to
the provider. -/
inductive BarNotice where
  | bars (items : List Bar)
  | continuity (update : ContinuityUpdate)
  | status (status : StreamStatus)
  | request (operation : ContinuityOperation)
  deriving DecidableEq

/-- A routed bar subscription with its continuity options and state. -/
structure BarRoute where
  symbol : String
  timeframe : Nat
  mode : ContinuityMode
  prefillBars : Nat := 0
  maxBackfillBars : Nat := 1000
  retry : RetryPolicy := {}
  maxBufferedBatches : Nat := 1024
  maxBufferedItems : Nat := 100000
  entryPhase : EntryPhase := .pending
  subscriberAlive : Bool := true
  phase : ContinuityPhase := .live
  initialPrefillPending : Bool := false
  requestInFlight : Bool := false
  buffer : List BarDataBatch := []
  bufferedItems : Nat := 0
  lastObservedTimeMs : Nat := 0
  verifiedThroughTimeMs : Nat := 0
  unverifiedFromTimeMs : Nat := 0
  initialPrefillBoundaryTimeMs : Nat := 0
  generation : Nat := 0
  reconnectTargetTimeMs : Nat := 0
  retryRequest : Option PendingContinuityRequest := none
  retryAtMs : Nat := 0
  /-- The operations that the provider has not completed, and the next operation's identity. -/
  operations : List ContinuityOperation := []
  nextOperation : Nat := 0

/-! ## Requests -/

def makeHistoryRequest (symbol : String) (timeframe fromMs toMs : Nat) : BarHistoryRequest :=
  ⟨symbol, timeframe, min (fromMs / 1000) int64Max, min (toMs / 1000) int64Max⟩

def makePrefillRequest (symbol : String) (timeframe nowMs bars : Nat) : BarHistoryRequest :=
  let timeframeMs := safeMultiply timeframe 1000
  let depthMs := safeMultiply timeframeMs (bars - 1)
  let alignedNowMs := if 0 < timeframeMs then nowMs - nowMs % timeframeMs else nowMs
  let boundaryMs := if 0 < alignedNowMs then alignedNowMs else nowMs
  let fromMs := if depthMs < boundaryMs then boundaryMs - depthMs else 1
  makeHistoryRequest symbol timeframe fromMs boundaryMs

def makeGapRequest (symbol : String) (timeframe fromMs toMs maxBars : Nat) : BarHistoryRequest :=
  let boundedToMs :=
    if 0 < maxBars ∧ fromMs ≤ toMs ∧ 0 < timeframe then
      min toMs (saturatingAdd fromMs (safeMultiply (safeMultiply timeframe 1000) (maxBars - 1)))
    else toMs
  makeHistoryRequest symbol timeframe fromMs boundedToMs

/-- The first gap in a batch after the bar at `previousTimeMs`: the bars before it, its inclusive limits, and
the bars from the one that shows it. -/
def findGap (timeframeMs : Nat) : Nat → List Bar → Option (List Bar × Nat × Nat × List Bar)
  | _, [] => none
  | previousTimeMs, bar :: bars =>
      if bar.timeMs = 0 then
        (findGap timeframeMs previousTimeMs bars).map (fun g => (bar :: g.1, g.2))
      else
        let expectedTimeMs := saturatingAdd previousTimeMs timeframeMs
        if expectedTimeMs < bar.timeMs ∧ expectedTimeMs ≤ bar.timeMs - timeframeMs then
          some ([], expectedTimeMs, bar.timeMs - timeframeMs, bar :: bars)
        else
          (findGap timeframeMs (max previousTimeMs bar.timeMs) bars).map (fun g => (bar :: g.1, g.2))

namespace BarRoute

def active (s : BarRoute) : Bool := s.entryPhase == .active

def timeframeMs (s : BarRoute) : Nat := s.timeframe * 1000

/-- An update to the subscriber of an active route. -/
def notifyContinuity (s : BarRoute) (update : ContinuityUpdate) : List BarNotice :=
  if s.active && s.subscriberAlive then [.continuity update] else []

def deliverBars (s : BarRoute) (items : List Bar) : List BarNotice :=
  if s.subscriberAlive then [.bars items] else []

/-- The request for `[fromMs, toMs]` under the limit per request, if it has a range at all. -/
def boundedRequest (s : BarRoute) (kind : ContinuityRequestKind) (announceGap : Bool) (fromMs toMs : Nat) :
    Option PendingContinuityRequest :=
  let request := makeGapRequest s.symbol s.timeframe fromMs toMs s.maxBackfillBars
  let fromTimeMs := secondsToMilliseconds request.fromTs
  let toTimeMs := secondsToMilliseconds request.toTs
  if fromTimeMs = 0 ∨ toTimeMs < fromTimeMs then none
  else some {
    request, kind, announceGap, fromTimeMs, toTimeMs
    requestedItems := min ((toTimeMs - fromTimeMs) / s.timeframeMs + 1) u64Max }

/-- Hands a request to the provider and announces it. -/
def requestContinuityHistory (s : BarRoute) (pending : PendingContinuityRequest) :
    BarRoute × List BarNotice :=
  if !s.active || !s.requestInFlight then (s, [])
  else
    let operation := ⟨s.nextOperation, pending, s.generation⟩
    let update (status : ContinuityStatus) (message : String) : List BarNotice :=
      s.notifyContinuity {
        status, fromTimeMs := pending.fromTimeMs, toTimeMs := pending.toTimeMs
        requestedItems := pending.requestedItems, message }
    let announced :=
      match pending.kind with
      | .prefill => []
      | .gapBackfill =>
          (if pending.announceGap then
            update .gapDetected "A gap was detected in the live bar stream." else []) ++
          update .backfilling "Requesting historical bars for the detected gap."
      | .reconnectBackfill =>
          update .backfilling "Revalidating overlapping historical bars after reconnect."
    ({ s with operations := s.operations ++ [operation], nextOperation := s.nextOperation + 1 },
      announced ++ [.request operation])

/-! ## The trust watermarks -/

def markUnverified (s : BarRoute) (fromTimeMs : Nat) : BarRoute :=
  if fromTimeMs = 0 then s
  else if s.unverifiedFromTimeMs = 0 ∨ fromTimeMs < s.unverifiedFromTimeMs then
    { s with unverifiedFromTimeMs := fromTimeMs }
  else s

def recordVerifiedRange (s : BarRoute) (fromTimeMs toTimeMs : Nat) (hasMoreReconnectHistory : Bool) :
    BarRoute :=
  if fromTimeMs = 0 ∨ toTimeMs < fromTimeMs then s
  else if s.unverifiedFromTimeMs ≠ 0 ∧
      (s.unverifiedFromTimeMs < fromTimeMs ∨ toTimeMs < s.unverifiedFromTimeMs) then s
  else
    { s with
      verifiedThroughTimeMs := max s.verifiedThroughTimeMs toTimeMs
      unverifiedFromTimeMs :=
        if !hasMoreReconnectHistory then 0
        else if 0 < s.timeframeMs ∧ toTimeMs ≤ u64Max - s.timeframeMs then toTimeMs + s.timeframeMs
        else toTimeMs }

/-- Progress by one delivered bar: only finished bars below the unresolved boundary are trusted. -/
def observeBar (s : BarRoute) (bar : Bar) : BarRoute :=
  let s := { s with lastObservedTimeMs := max s.lastObservedTimeMs bar.timeMs }
  let trustedFinalized := bar.flags.finalized || (bar.flags.historical && !bar.flags.incomplete)
  if trustedFinalized && (s.unverifiedFromTimeMs == 0 || bar.timeMs < s.unverifiedFromTimeMs) &&
      s.verifiedThroughTimeMs < bar.timeMs then
    { s with verifiedThroughTimeMs := bar.timeMs }
  else s

def recordBarProgress (s : BarRoute) (bars : List Bar) : BarRoute := bars.foldl observeBar s

/-! ## Live bars -/

/-- What routing one batch does: the route, the updates, the deliveries, and the request it calls for. -/
structure Routed where
  route : BarRoute
  continuity : List BarNotice := []
  deliveries : List BarNotice := []
  request : Option PendingContinuityRequest := none

/-- Everything held back is delivered, one batch after the other. -/
def releaseBuffer (s : BarRoute) : List BarDataBatch → BarRoute × List BarNotice
  | [] => (s, [])
  | batch :: batches =>
      let rest := (s.recordBarProgress batch.items).releaseBuffer batches
      (rest.1, s.deliverBars batch.items ++ rest.2)

/-- Holds a batch back, if the limits allow it; beyond them the route gives up on continuity. -/
def bufferContinuityBatch (s : BarRoute) (batch : BarDataBatch) (pushFront : Bool) : Bool × Routed :=
  let batch := { batch with
    items := batch.items.map (fun bar => { bar with flags := bar.flags.markLive true }) }
  let batchItems := batch.items.length
  let exceedsBatchLimit := 0 < s.maxBufferedBatches && s.maxBufferedBatches ≤ s.buffer.length
  let exceedsItemLimit := 0 < s.maxBufferedItems &&
    (s.maxBufferedItems < batchItems || s.maxBufferedItems - batchItems < s.bufferedItems)
  if !exceedsBatchLimit && !exceedsItemLimit then
    (true, { route := { s with
      buffer := if pushFront then batch :: s.buffer else s.buffer ++ [batch]
      bufferedItems := s.bufferedItems + batchItems } })
  else
    let released := s.releaseBuffer s.buffer
    (false, {
      route := { released.1.recordBarProgress batch.items with
        buffer := [], bufferedItems := 0, phase := .degraded, initialPrefillPending := false
        requestInFlight := false, reconnectTargetTimeMs := 0, retryRequest := none, retryAtMs := 0
        mode := .liveOnly }
      deliveries := released.2 ++ s.deliverBars batch.items
      continuity := [
        .continuity { status := .failed, message :=
          "Continuity buffer limit exceeded; live delivery continues." },
        .continuity { status := .degraded, message :=
          "Live delivery resumed without verified continuity after buffer overflow." }] })

/-- A gap in a batch: what comes before it is delivered, the rest is held back, and history is asked for. -/
def recoverGap (s : BarRoute) (batch : BarDataBatch) (processBuffered : Bool)
    (gap : List Bar × Nat × Nat × List Bar) : Routed :=
  match s.boundedRequest .gapBackfill true gap.2.1 gap.2.2.1 with
  | none => { route := s }
  | some pending =>
      let delivered := if gap.1.isEmpty then [] else s.deliverBars gap.1
      let held := (s.recordBarProgress gap.1).bufferContinuityBatch
        { batch with items := gap.2.2.2 } processBuffered
      if !held.1 then { held.2 with deliveries := delivered ++ held.2.deliveries }
      else
        { route := { held.2.route.markUnverified pending.fromTimeMs with
            phase := .recovering, requestInFlight := true }
          deliveries := delivered
          request := some pending }

def matchesStream (s : BarRoute) (batch : BarDataBatch) : Bool :=
  batch.symbol == s.symbol && batch.timeframe == s.timeframe

/-- `route_bar_to_entry_no_lock`, for a live batch and for one that was held back. -/
def routeBarToEntry (s : BarRoute) (batch : BarDataBatch) (processBuffered allowGapRecovery : Bool)
    (confirmedThroughTimeMs : Nat) : Routed :=
  if !s.active || !s.matchesStream batch || !s.subscriberAlive || batch.items.isEmpty then { route := s }
  else
    let items := batch.items.map (fun bar => { bar with flags := bar.flags.markLive processBuffered })
    let items :=
      if processBuffered && 0 < confirmedThroughTimeMs then
        items.filter (fun bar => !(bar.timeMs != 0 && bar.timeMs ≤ confirmedThroughTimeMs))
      else items
    if items.isEmpty then { route := s }
    else if s.mode.enabled && !processBuffered && s.phase.buffersLiveData then
      (s.bufferContinuityBatch { batch with items } false).2
    else
      let gap :=
        if allowGapRecovery && s.mode.recoversGaps && !s.requestInFlight && 0 < s.timeframe &&
            0 < s.lastObservedTimeMs then
          findGap s.timeframeMs s.lastObservedTimeMs items
        else none
      match gap with
      | some gap => s.recoverGap { batch with items } processBuffered gap
      | none => { route := s.recordBarProgress items, deliveries := s.deliverBars items }

def routeBars (s : BarRoute) (batch : BarDataBatch) : BarRoute × List BarNotice :=
  let r := s.routeBarToEntry batch false true 0
  match r.request with
  | none => (r.route, r.continuity ++ r.deliveries)
  | some pending =>
      let requested := r.route.requestContinuityHistory pending
      (requested.1, r.continuity ++ r.deliveries ++ requested.2)

/-! ## Prefill and reconnect -/

/-- The prefill request; a restarted prefill keeps its first boundary. -/
def prefillRequest (s : BarRoute) (clock : RouteClock) : PendingContinuityRequest :=
  let nowMs :=
    if s.initialPrefillBoundaryTimeMs ≠ 0 then s.initialPrefillBoundaryTimeMs else clock.nowMs
  let request := makePrefillRequest s.symbol s.timeframe nowMs s.prefillBars
  { request, kind := .prefill
    fromTimeMs := secondsToMilliseconds request.fromTs
    toTimeMs := secondsToMilliseconds request.toTs
    requestedItems := s.prefillBars }

def startContinuity (s : BarRoute) (clock : RouteClock) : BarRoute × List BarNotice :=
  if !s.active || !s.initialPrefillPending || s.phase != .prefilling || s.prefillBars == 0 ||
      s.requestInFlight then (s, [])
  else
    let pending := s.prefillRequest clock
    let requested := { s with
      initialPrefillBoundaryTimeMs :=
        if s.initialPrefillBoundaryTimeMs = 0 then pending.toTimeMs else s.initialPrefillBoundaryTimeMs
      phase := .prefilling, requestInFlight := true }.requestContinuityHistory pending
    (requested.1,
      s.notifyContinuity {
        status := .prefilling, fromTimeMs := pending.fromTimeMs, toTimeMs := pending.toTimeMs
        requestedItems := pending.requestedItems
        message := "Requesting historical bar prefill." } ++ requested.2)

def bufferedTimes (s : BarRoute) : List Nat :=
  (s.buffer.flatMap (·.items.map (·.timeMs))).filter (· != 0)

/-- The start of the range that a reconnect has to recover; zero when there is none. -/
def reconnectFrom (s : BarRoute) : Nat :=
  let earliestBufferedTimeMs := s.bufferedTimes.min?.getD 0
  let observedTimeMs := max s.lastObservedTimeMs (s.bufferedTimes.max?.getD 0)
  let hasUntrustedData := !s.buffer.isEmpty || s.verifiedThroughTimeMs < observedTimeMs
  if s.unverifiedFromTimeMs ≠ 0 then s.unverifiedFromTimeMs
  else if hasUntrustedData then
    if 0 < s.verifiedThroughTimeMs ∧ s.verifiedThroughTimeMs ≤ u64Max - s.timeframeMs then
      s.verifiedThroughTimeMs + s.timeframeMs
    else if earliestBufferedTimeMs ≠ 0 then earliestBufferedTimeMs
    else observedTimeMs
  else if 0 < observedTimeMs ∧ observedTimeMs ≤ u64Max - s.timeframeMs then
    observedTimeMs + s.timeframeMs
  else 0

/-- The last timeframe slot that has closed at the provider. -/
def lastClosedTimeMs (s : BarRoute) (clock : RouteClock) : Nat :=
  let alignedNowMs := clock.providerTimeMs - clock.providerTimeMs % s.timeframeMs
  if s.timeframeMs < alignedNowMs then alignedNowMs - s.timeframeMs else 0

def startReconnectRecovery (s : BarRoute) (clock : RouteClock) : BarRoute × List BarNotice :=
  if !s.active || s.phase != .recovering || !s.mode.recoversGaps || s.initialPrefillPending ||
      s.requestInFlight || s.timeframeMs == 0 then (s, [])
  else
    let fromTimeMs := s.reconnectFrom
    let lastClosedTimeMs := s.lastClosedTimeMs clock
    if fromTimeMs = 0 then
      ({ s with phase := .live, reconnectTargetTimeMs := 0 }, s.notifyContinuity {
        status := .live, message := "No observed bars required reconnect recovery." })
    -- a dirty current candle cannot be verified until it closes
    else if lastClosedTimeMs < fromTimeMs then (s, [])
    else
      match s.boundedRequest .reconnectBackfill false fromTimeMs lastClosedTimeMs with
      | none => (s, [])
      | some pending =>
          { s.markUnverified fromTimeMs with
            phase := .recovering, requestInFlight := true
            reconnectTargetTimeMs := lastClosedTimeMs }.requestContinuityHistory pending

/-! ## Completion of a history request -/

/-- What a history response is worth. -/
structure HistoryVerdict where
  success : Bool
  streamMatches : Bool
  responseValid : Bool
  rangeComplete : Bool
  errorDesc : String
  items : List Bar

namespace HistoryVerdict

/-- The response proves its range. -/
def usable (v : HistoryVerdict) : Bool :=
  v.success && v.streamMatches && v.responseValid && v.rangeComplete

/-- The bars that are delivered: a recovery delivers only what is proved. -/
def delivered (v : HistoryVerdict) (kind : ContinuityRequestKind) : List Bar :=
  if v.responseValid && (kind == .prefill || v.usable) then v.items else []

/-- Up to where a result settles the slots of held bars; zero for none. -/
def confirmedThrough (v : HistoryVerdict) (pending : PendingContinuityRequest) : Nat :=
  if v.usable && pending.kind == .reconnectBackfill then pending.toTimeMs else 0

def failureMessage (v : HistoryVerdict) : String :=
  if !v.errorDesc.isEmpty then v.errorDesc
  else if !v.success then "Historical market-data continuity request failed."
  else if !v.streamMatches then "Historical bar response does not match the subscribed stream."
  else if !v.responseValid then
    "Historical bar response is outside the requested range, unordered, or duplicated."
  else "Historical bars do not prove the requested range is complete."

end HistoryVerdict

/-- Nonzero times within the range, strictly increasing after `previousTimeMs`. -/
def orderedWithin (fromTimeMs toTimeMs : Nat) : Nat → List Bar → Bool
  | _, [] => true
  | previousTimeMs, bar :: bars =>
      bar.timeMs != 0 && fromTimeMs ≤ bar.timeMs && bar.timeMs ≤ toTimeMs &&
        (previousTimeMs == 0 || previousTimeMs < bar.timeMs) &&
        orderedWithin fromTimeMs toTimeMs bar.timeMs bars

def historyIsWellFormed (items : List Bar) (fromTimeMs toTimeMs : Nat) : Bool :=
  fromTimeMs != 0 && fromTimeMs ≤ toTimeMs && orderedWithin fromTimeMs toTimeMs 0 items

def clipHistoryToRange (items : List Bar) (fromTimeMs toTimeMs : Nat) : List Bar :=
  items.filter (fun bar => fromTimeMs ≤ bar.timeMs && bar.timeMs ≤ toTimeMs)

/-- `make_bar_batch` for a response. -/
def makeBarBatch (result : BarHistoryResult) (request : BarHistoryRequest) (backfillMarks : Bool) :
    BarDataBatch where
  symbol := if result.symbol.isEmpty then request.symbol else result.symbol
  timeframe := if 0 < result.timeframe then result.timeframe else request.timeframe
  items := result.bars.map (fun bar => { bar with flags := bar.flags.markHistorical backfillMarks })

def judge (s : BarRoute) (pending : PendingContinuityRequest) (result : BarHistoryResult) :
    HistoryVerdict :=
  let batch := makeBarBatch result pending.request (pending.kind == .gapBackfill)
  let streamMatches :=
    result.success && symbolsMatch batch.symbol s.symbol && batch.timeframe == s.timeframe
  let items :=
    if !streamMatches then []
    else if pending.kind == .prefill then batch.items
    else clipHistoryToRange batch.items pending.fromTimeMs pending.toTimeMs
  { success := result.success
    streamMatches
    responseValid := streamMatches && historyIsWellFormed items pending.fromTimeMs pending.toTimeMs
    rangeComplete := result.rangeComplete
    errorDesc := result.errorDesc
    items }

def scheduleRetry (s : BarRoute) (pending : PendingContinuityRequest) (clock : RouteClock) :
    BarRoute × List BarNotice :=
  ({ s with
      retryRequest := some { pending with announceGap := false, attempt := pending.attempt + 1 }
      retryAtMs := retryAt s.retry pending.attempt clock.steadyMs
      phase := if pending.kind == .prefill then .prefilling else .recovering },
    s.notifyContinuity {
      status := .retrying, fromTimeMs := pending.fromTimeMs, toTimeMs := pending.toTimeMs
      requestedItems := pending.requestedItems
      message := "Retrying historical market-data continuity request." })

/-- The trust bookkeeping of a finished request. -/
def settleHistory (s : BarRoute) (pending : PendingContinuityRequest) (v : HistoryVerdict) : BarRoute :=
  let s := if pending.kind == .prefill then { s with initialPrefillPending := false } else s
  if !v.usable then
    if s.unverifiedFromTimeMs = 0 then s.markUnverified pending.fromTimeMs else s
  else if pending.kind == .prefill then s
  else
    s.recordVerifiedRange pending.fromTimeMs pending.toTimeMs
      (pending.kind == .reconnectBackfill && pending.toTimeMs < s.reconnectTargetTimeMs)

/-- After a prefill, known trust loss is recovered at once. -/
def recoversAfterPrefill (s : BarRoute) (pending : PendingContinuityRequest) (v : HistoryVerdict) : Bool :=
  pending.kind == .prefill && v.responseValid && s.mode.recoversGaps && s.unverifiedFromTimeMs != 0

def deliverHistory (s : BarRoute) (items : List Bar) : BarRoute × List BarNotice :=
  if items.isEmpty then (s, []) else (s.recordBarProgress items, s.deliverBars items)

/-- The end of a recovery, with nothing left to flush. -/
def finishRecovery (s : BarRoute) (pending : PendingContinuityRequest) (v : HistoryVerdict) :
    BarRoute × List BarNotice :=
  let verified := v.usable && s.unverifiedFromTimeMs == 0
  ({ s with phase := if verified then .live else .degraded, reconnectTargetTimeMs := 0 },
    if !s.mode.enabled then []
    else s.notifyContinuity {
      status := if verified then .live else .degraded
      fromTimeMs := pending.fromTimeMs, toTimeMs := pending.toTimeMs
      requestedItems := pending.requestedItems
      deliveredItems :=
        if pending.kind == .prefill || v.usable then v.items.length else 0
      message :=
        if verified then "Historical market-data continuity is ready."
        else "Live delivery continues without verified continuity." })

/-- Routes the batches that were held back, until one of them shows a gap; `fuel` bounds their number. -/
def flushBuffer (pending : PendingContinuityRequest) (v : HistoryVerdict) :
    Nat → BarRoute → BarRoute × List BarNotice
  | 0, s => (s, [])
  | fuel + 1, s =>
      match s.buffer with
      | [] => s.finishRecovery pending v
      | batch :: buffer =>
          let r := { s with
            buffer, bufferedItems := s.bufferedItems - batch.items.length }.routeBarToEntry batch true
              v.usable (v.confirmedThrough pending)
          let next := match r.request with
            | some next => r.route.requestContinuityHistory next
            | none => flushBuffer pending v fuel r.route
          (next.1, r.continuity ++ r.deliveries ++ next.2)

/-- Goes on after a finished request: recovers what a prefill left open, asks for the next chunk of a
reconnect, or flushes. -/
def continueRecovery (s : BarRoute) (pending : PendingContinuityRequest) (v : HistoryVerdict)
    (recover : Bool) (clock : RouteClock) : BarRoute × List BarNotice :=
  if recover then s.startReconnectRecovery clock
  else if v.usable && pending.kind == .reconnectBackfill &&
      pending.toTimeMs < s.reconnectTargetTimeMs then
    if s.timeframeMs = 0 ∨ u64Max - s.timeframeMs < pending.toTimeMs then (s, [])
    else
      match s.boundedRequest .reconnectBackfill false (pending.toTimeMs + s.timeframeMs)
          s.reconnectTargetTimeMs with
      | none => (s, [])
      | some next =>
          { s with phase := .recovering, requestInFlight := true }.requestContinuityHistory next
  else flushBuffer pending v (s.buffer.length + 1) s

/-- The route after the bookkeeping of a finished request. -/
def settled (s : BarRoute) (pending : PendingContinuityRequest) (v : HistoryVerdict) : BarRoute :=
  let s := s.settleHistory pending v
  if s.recoversAfterPrefill pending v then { s with phase := .recovering } else s

/-- A finished request: its verdict is recorded and reported, its bars delivered, and the route goes on. -/
def finishHistory (s : BarRoute) (pending : PendingContinuityRequest) (v : HistoryVerdict)
    (clock : RouteClock) : BarRoute × List BarNotice :=
  let settled := s.settled pending v
  let failed :=
    if v.usable then []
    else settled.notifyContinuity {
      status := .failed, fromTimeMs := pending.fromTimeMs, toTimeMs := pending.toTimeMs
      requestedItems := pending.requestedItems, message := v.failureMessage }
  let delivered := settled.deliverHistory (v.delivered pending.kind)
  let next := delivered.1.continueRecovery pending v (settled.recoversAfterPrefill pending v) clock
  (next.1, failed ++ delivered.2 ++ next.2)

/-- Whether a completion is still the route's current one. -/
def current (s : BarRoute) (operation : ContinuityOperation) : Bool :=
  s.active && s.requestInFlight && s.generation == operation.generation

/-- Whether a response is answered by another attempt. -/
def retries (s : BarRoute) (pending : PendingContinuityRequest) (v : HistoryVerdict) : Bool :=
  !v.success && pending.attempt < s.retry.maxAttempts

def completeContinuity (s : BarRoute) (operation : ContinuityOperation) (result : BarHistoryResult)
    (clock : RouteClock) : BarRoute × List BarNotice :=
  if !s.current operation then (s, [])
  else
    let flushing := { s with requestInFlight := false, phase := .flushing }
    let v := s.judge operation.pending result
    if s.retries operation.pending v then flushing.scheduleRetry operation.pending clock
    else flushing.finishHistory operation.pending v clock

/-! ## Transport statuses -/

/-- The trust that a transport loss takes back. -/
def invalidateTrust (s : BarRoute) : BarRoute :=
  if !s.mode.recoversGaps then s
  else if s.initialPrefillPending then
    if 0 < s.initialPrefillBoundaryTimeMs then s.markUnverified s.initialPrefillBoundaryTimeMs else s
  else if 0 < s.verifiedThroughTimeMs ∧ 0 < s.timeframeMs ∧
      s.verifiedThroughTimeMs ≤ u64Max - s.timeframeMs then
    s.markUnverified (s.verifiedThroughTimeMs + s.timeframeMs)
  else s.markUnverified s.lastObservedTimeMs

/-- What a status starts on a waiting route. -/
inductive Work where
  | prefill | reconnect
  deriving DecidableEq

/-- The transport is lost: what was asked for is void, and the route waits. -/
def loseTransport (s : BarRoute) : BarRoute :=
  { { s with
      generation := s.generation + 1, requestInFlight := false, retryRequest := none, retryAtMs := 0
      reconnectTargetTimeMs := 0 }.invalidateTrust with phase := .waitingForReady }

/-- The transport is ready: a route that waits goes on. -/
def resumeTransport (s : BarRoute) : BarRoute × Option Work :=
  if s.phase == .waitingForReady && !s.requestInFlight then
    if s.initialPrefillPending then ({ s with phase := .prefilling }, some .prefill)
    else if s.mode.recoversGaps then ({ s with phase := .recovering }, some .reconnect)
    else (s, none)
  else (s, none)

/-- `apply_stream_status_to_entry_no_lock`. -/
def applyStreamStatus (s : BarRoute) (status : StreamStatus) :
    BarRoute × List BarNotice × Option Work :=
  let needsTransportRecovery := s.initialPrefillPending || s.mode.recoversGaps
  if s.mode.enabled && needsTransportRecovery && status.invalidatesContinuity then
    (s.loseTransport,
      if s.phase != .waitingForReady && s.subscriberAlive then
        [.continuity {
          status := .stale, message := "Transport loss invalidated market-data continuity." }]
      else [], none)
  else if s.mode.enabled && status == .ready then
    (s.resumeTransport.1, [], s.resumeTransport.2)
  else (s, [], none)

def startWork (s : BarRoute) (work : Option Work) (clock : RouteClock) : BarRoute × List BarNotice :=
  match work with
  | none => (s, [])
  | some .prefill => s.startContinuity clock
  | some .reconnect => s.startReconnectRecovery clock

def routedStatus (s : BarRoute) (status : StreamStatus) : List BarNotice :=
  if s.subscriberAlive then [.status status] else []

def routeStatus (s : BarRoute) (status : StreamStatus) (clock : RouteClock) :
    BarRoute × List BarNotice :=
  if !s.active then (s, [])
  else
    let applied := s.applyStreamStatus status
    let started := applied.1.startWork applied.2.2 clock
    (started.1, s.routedStatus status ++ applied.2.1 ++ started.2)

/-! ## The route's events -/

/-- The provider's cached status, if there is one. -/
def replayStatus (s : BarRoute) (replay : Option StreamStatus) :
    BarRoute × List BarNotice × Option Work :=
  match replay with
  | none => (s, [], none)
  | some status => s.applyStreamStatus status

/-- A confirmed subscription: the cached transport status is applied before the prefill starts, and told to the
subscriber after. -/
def completeSubscribe (s : BarRoute) (replay : Option StreamStatus) (clock : RouteClock) :
    BarRoute × List BarNotice :=
  if s.entryPhase != .pending then (s, [])
  else
    let s := { s with entryPhase := .active }
    let applied := s.replayStatus replay
    let prefill := if 0 < s.prefillBars then applied.1.startContinuity clock else (applied.1, [])
    let started := prefill.1.startWork applied.2.2 clock
    (started.1, prefill.2 ++ (replay.map s.routedStatus).getD [] ++ applied.2.1 ++ started.2)

/-- Makes a failed request again. -/
def retryHistory (s : BarRoute) (pending : PendingContinuityRequest) : BarRoute × List BarNotice :=
  let phase : ContinuityPhase := if pending.kind == .prefill then .prefilling else .recovering
  { s with phase, retryRequest := none, retryAtMs := 0, requestInFlight := true }.requestContinuityHistory
    pending

/-- `process`: a retry that is due, or a recovery that waits for the clock. -/
def process (s : BarRoute) (clock : RouteClock) : BarRoute × List BarNotice :=
  if !s.active || s.requestInFlight then (s, [])
  else
    match s.retryRequest with
    | some pending => if clock.steadyMs < s.retryAtMs then (s, []) else s.retryHistory pending
    | none =>
        if s.phase == .recovering && !s.initialPrefillPending then s.startReconnectRecovery clock
        else (s, [])

/-- The provider's first answer to an operation; later ones find nothing. -/
def completeOperation (s : BarRoute) (id : Nat) (result : BarHistoryResult) (clock : RouteClock) :
    BarRoute × List BarNotice :=
  match s.operations.find? (·.id == id) with
  | none => (s, [])
  | some operation =>
      { s with operations := s.operations.filter (·.id != id) }.completeContinuity operation result clock

inductive Event where
  | subscribed (replay : Option StreamStatus) (clock : RouteClock)
  | bars (batch : BarDataBatch)
  | status (status : StreamStatus) (clock : RouteClock)
  | history (id : Nat) (result : BarHistoryResult) (clock : RouteClock)
  | process (clock : RouteClock)
  | unsubscribe
  | subscriberGone

def step (s : BarRoute) : Event → BarRoute × List BarNotice
  | .subscribed replay clock => s.completeSubscribe replay clock
  | .bars batch => s.routeBars batch
  | .status status clock => s.routeStatus status clock
  | .history id result clock => s.completeOperation id result clock
  | .process clock => s.process clock
  | .unsubscribe => ({ s with entryPhase := .unsubscribing }, [])
  | .subscriberGone => ({ s with subscriberAlive := false }, [])

end BarRoute

/-- The options of a bar subscription. -/
structure ContinuityOptions where
  mode : ContinuityMode
  prefillBars : Nat := 0
  maxBackfillBars : Nat := 1000
  retry : RetryPolicy := {}
  maxBufferedBatches : Nat := 1024
  maxBufferedItems : Nat := 100000

def ContinuityOptions.valid (options : ContinuityOptions) : Bool :=
  match options.mode with
  | .liveOnly => options.prefillBars == 0
  | .prefill => 0 < options.prefillBars && options.retry.valid
  | .prefillAndRecover => options.retry.valid

/-- `add_pending_entry` for a bar subscription. -/
def BarRoute.create (symbol : String) (timeframe : Nat) (options : ContinuityOptions) : BarRoute where
  symbol := symbol
  timeframe := timeframe
  mode := options.mode
  prefillBars := options.prefillBars
  maxBackfillBars := options.maxBackfillBars
  retry := options.retry
  maxBufferedBatches := options.maxBufferedBatches
  maxBufferedItems := options.maxBufferedItems
  initialPrefillPending := options.mode.enabled && 0 < options.prefillBars
  phase := if options.mode.enabled && 0 < options.prefillBars then .prefilling else .live

end OptionX.MarketData
