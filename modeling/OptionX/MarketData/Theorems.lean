import OptionX.MarketData.Lemmas.BarTrust
import OptionX.MarketData.Lemmas.RouterControl
import OptionX.MarketData.Lemmas.TickChunks

/-!
# Continuity of routed market data

What the claim `LIVE` of a bar route is worth, when the recovery of a live gap comes to an end, and what the chunks of a
tick range cover.
-/

namespace OptionX.MarketData

open Lib.Run (exec trace)

namespace BarRoute

/-! ## Lost trust -/

/-- In a run, `LIVE` is emitted only when every operation that ended unusable, with its start in `starts` or in
the run, has been followed by a usable result over that start. -/
def Sticky (starts : List Nat) (s : BarRoute) : List Event → Prop
  | [] => True
  | e :: es =>
      ((∃ n ∈ (s.step e).2, n.isLive = true) → outstanding starts s e = []) ∧
        Sticky (outstanding starts s e) (s.step e).1 es

/-- Every step of a run heeds the outstanding starts. -/
def Heeded (starts : List Nat) (s : BarRoute) : List Event → Prop
  | [] => True
  | e :: es => Heeds starts s e ∧ Heeded (outstanding starts s e) (s.step e).1 es

theorem Watched.run {starts : List Nat} {s : BarRoute} (h : Watched starts s) {es : List Event}
    (he : Heeded starts s es) : Sticky starts s es := by
  induction es generalizing starts s with
  | nil => trivial
  | cons e es ih =>
      obtain ⟨h1, h2⟩ := h.step he.1
      exact ⟨h2, ih h1 he.2⟩

/-- A route whose single boundary can stand for everything outstanding never claims continuity over an
unresolved range. -/
theorem trust_sticky (symbol : String) (timeframe : Nat) (options : ContinuityOptions) (es : List Event)
    (h : Heeded [] (create symbol timeframe options) es) :
    Sticky [] (create symbol timeframe options) es :=
  Watched.run (fun _ hm => by cases hm) h

/-- Minute bars with a prefill of three bars and recovery. -/
def minuteOptions : ContinuityOptions := { mode := .prefillAndRecover, prefillBars := 3 }

def minuteRoute : BarRoute := create "EURUSD" 60 minuteOptions

def clockAt (ms : Nat) : RouteClock := ⟨ms, ms, ms⟩

/-- A prefill of [480000, 600000] that stays incomplete, and after a disconnect a recovery that covers it. -/
def recoveredPrefill : List Event :=
  [.subscribed none (clockAt 600000), .history 0 { success := true } (clockAt 601000),
    .status .disconnected (clockAt 602000), .status .ready (clockAt 720000),
    .history 2 { success := true, rangeComplete := true } (clockAt 721000)]

theorem trust_sticky_recovered :
    Sticky [] minuteRoute recoveredPrefill ∧
      ∃ st ∈ trace step minuteRoute recoveredPrefill, ∃ n ∈ st.answer, n.isLive = true :=
  ⟨trust_sticky "EURUSD" 60 minuteOptions recoveredPrefill
    ⟨trivial, ⟨by decide, .inl rfl⟩, trivial, trivial, fun _ _ _ => by decide, trivial⟩, by decide⟩

/-- The same prefill, interrupted by a disconnect and restarted before it stays incomplete: the recovery that
follows starts at the boundary of the prefill, and `LIVE` is claimed though its start stays open. -/
def interruptedPrefill : List Event :=
  [.subscribed none (clockAt 600000), .status .disconnected (clockAt 601000),
    .status .ready (clockAt 720000), .history 1 { success := true } (clockAt 721000),
    .history 2 { success := true, rangeComplete := true } (clockAt 722000)]

theorem interrupted_prefill_forgotten : ¬ Sticky [] minuteRoute interruptedPrefill := by
  rintro ⟨-, -, -, -, h, -⟩
  have hlive : outstanding _ _ _ = [] := h (by decide)
  revert hlive
  decide

end BarRoute

/-! ## Phases to rest in -/

/-- An active route that holds live data back waits for the answer to its request, for a retry, for the transport,
or for the next `process`. -/
def BarRoute.Alive (s : BarRoute) : Prop :=
  s.entryPhase = .active → s.mode.enabled = true → s.phase.buffersLiveData = true →
    s.phase ≠ .flushing ∧
      (s.requestInFlight = true ∧ (∃ operation ∈ s.operations, operation.generation = s.generation) ∨
        s.retryRequest.isSome = true ∨ s.phase = .waitingForReady ∨
        s.phase = .recovering ∧ s.initialPrefillPending = false ∧ s.mode.recoversGaps = true)

def TickRoute.Alive {P : Type} (s : TickRoute P) : Prop :=
  s.entryPhase = .active → s.mode.enabled = true → s.phase.buffersLiveData = true →
    s.phase ≠ .flushing ∧
      (s.requestInFlight = true ∧ (∃ operation ∈ s.operations, operation.generation = s.generation) ∨
        s.retryRequest.isSome = true ∨ s.phase = .waitingForReady ∨
        s.phase = .recovering ∧ s.initialPrefillPending = false ∧ s.mode.recoversGaps = true)

theorem BarRoute.AtRest.alive {s : BarRoute} {sent} (h : s.AtRest sent) : s.Alive := by
  intro hactive henabled hbuffers
  obtain ⟨hphase, hwaits⟩ := h.rests hactive henabled hbuffers
  refine ⟨hphase, hwaits.imp_left fun hf => ⟨hf, ?_⟩⟩
  obtain ⟨o, ho, hg⟩ := h.served hactive hf
  obtain ⟨operation, hmem, rfl⟩ := List.mem_map.mp ho
  exact ⟨operation, hmem, hg⟩

theorem TickRoute.AtRest.alive {P : Type} {s : TickRoute P} {sent} (h : s.AtRest sent) : s.Alive := by
  intro hactive henabled hbuffers
  obtain ⟨hphase, hwaits⟩ := h.rests hactive henabled hbuffers
  refine ⟨hphase, hwaits.imp_left fun hf => ⟨hf, ?_⟩⟩
  obtain ⟨o, ho, hg⟩ := h.served hactive hf
  obtain ⟨operation, hmem, rfl⟩ := List.mem_map.mp ho
  exact ⟨operation, hmem, hg⟩

theorem BarRoute.AtRest.run {s : BarRoute} {sent} (h : s.AtRest sent) {es : List BarRoute.Event}
    (hc : ∀ t ∈ trace BarRoute.step s es, t.before.Continues t.event) :
    ∃ sent', (exec BarRoute.step s es).AtRest sent' := by
  induction es generalizing s sent with
  | nil => exact ⟨sent, h⟩
  | cons e es ih =>
      obtain ⟨sent', h'⟩ := h.step (hc _ List.mem_cons_self)
      exact ih h' fun t ht => hc t (List.mem_cons_of_mem _ ht)

theorem TickRoute.AtRest.run {P : Type} [BEq P] {s : TickRoute P} {sent} (h : s.AtRest sent)
    {es : List (TickRoute.Event P)} (hfits : ∀ e ∈ es, e.Fits) :
    ∃ sent', (exec TickRoute.step s es).AtRest sent' := by
  induction es generalizing s sent with
  | nil => exact ⟨sent, h⟩
  | cons e es ih =>
      obtain ⟨sent', h'⟩ := h.step (hfits e List.mem_cons_self)
      exact ih h' fun e' he' => hfits e' (List.mem_cons_of_mem _ he')

/-- No route is left holding live data back with nothing to wait for: no tick route at all, and no bar route whose
usable reconnect chunks leave room for the next one when they end short of their target. -/
theorem never_dead {P : Type} [BEq P] (symbol : String) (timeframe : Nat) (htf : 0 < timeframe)
    (barOptions : ContinuityOptions) (tickOptions : TickContinuityOptions)
    (bars : List BarRoute.Event) (ticks : List (TickRoute.Event P))
    (hbars : ∀ t ∈ trace BarRoute.step (BarRoute.create symbol timeframe barOptions) bars,
      t.before.Continues t.event)
    (hticks : ∀ e ∈ ticks, e.Fits) :
    (exec BarRoute.step (BarRoute.create symbol timeframe barOptions) bars).Alive ∧
      (exec TickRoute.step (TickRoute.create symbol tickOptions : TickRoute P) ticks).Alive := by
  obtain ⟨_, h1⟩ := (BarRoute.create_atRest symbol htf barOptions).run hbars
  obtain ⟨_, h2⟩ := (TickRoute.create_atRest symbol tickOptions : (TickRoute.create symbol tickOptions :
    TickRoute P).AtRest []).run hticks
  exact ⟨h1.alive, h2.alive⟩

/-- Minute bars with recovery in chunks of one bar. -/
def chunkRoute : BarRoute := .create "EURUSD" 60 { mode := .prefillAndRecover, maxBackfillBars := 1 }

/-- A reconnect at 240000 after a bar at `timeMs`. -/
def reconnectAfter (timeMs : Nat) : List BarRoute.Event :=
  [.subscribed none (BarRoute.clockAt 60000), .bars ⟨"EURUSD", 60, [⟨timeMs, { finalized := true }⟩]⟩,
    .status .disconnected (BarRoute.clockAt 100000), .status .ready (BarRoute.clockAt 240000),
    .history 0 { success := true, rangeComplete := true } (BarRoute.clockAt 241000)]

/-- The same reconnect of a tick route. -/
def tickReconnect : List (TickRoute.Event Nat) :=
  [.subscribed none (BarRoute.clockAt 60000), .ticks ⟨"EURUSD", [⟨2, 1, 0, 0, 0, 90000, {}⟩]⟩,
    .status .disconnected (BarRoute.clockAt 100000), .status .ready (BarRoute.clockAt 240000),
    .history 0 { success := true, rangeComplete := true } (BarRoute.clockAt 241000)]

/-- After a bar on the grid the second chunk is asked for. -/
theorem never_dead_on_grid :
    (exec BarRoute.step chunkRoute (reconnectAfter 60000)).Alive ∧
      (exec TickRoute.step (TickRoute.create "EURUSD" { mode := .prefillAndRecover } : TickRoute Nat)
        tickReconnect).Alive :=
  never_dead "EURUSD" 60 (by decide) { mode := .prefillAndRecover, maxBackfillBars := 1 }
    { mode := .prefillAndRecover } (reconnectAfter 60000) tickReconnect (by decide)
    (by simp [tickReconnect, TickRoute.Event.Fits, RouteClock.Fits, BarRoute.clockAt, u64Max])

/-- After a bar half a minute off the grid the first chunk ends at 150000, half a minute before the target: its
answer leaves the route flushing, with nothing to wait for. -/
theorem stalls_off_grid : ¬ (exec BarRoute.step chunkRoute (reconnectAfter 90000)).Alive := by
  intro h
  exact (h rfl rfl rfl).1 rfl

/-! ## Completions that count -/

namespace Router

variable {P : Type} [BEq P]

/-- Of each route at most one operation counts, those whose completion waits for the owner included. A completion
is recorded silently and once; run when it does not count, it changes no route and sends nothing. The counter is
the number of operations that the provider has not completed. -/
structure Inert (r : Router P) : Prop where
  unique : ∀ i (route : Route P), r.routes[i]? = some route →
    ∀ o ∈ route.unfinished ++ (postedFor r.posted i).map Completion.sent,
      ∀ o' ∈ route.unfinished ++ (postedFor r.posted i).map Completion.sent,
        route.counts o = true → route.counts o' = true → o = o'
  recorded : ∀ i id result accepted, (r.step (.completed i id result accepted)).2 = [] ∧
    ∀ j : Nat, (r.step (.completed i id result accepted)).1.routes[j]? = r.routes[j]? ∨
      (r.step (.completed i id result accepted)).1.routes[j]? = r.routes[j]?.map (Route.answered · id)
  repeated : ∀ i id result accepted, (∀ route : Route P, r.routes[i]? = some route → id ∉ route.operationIds) →
    r.step (.completed i id result accepted) = (r, [])
  stale : ∀ k clock i c (route : Route P), r.posted[k]? = some (i, c) → r.routes[i]? = some route →
    route.counts c.sent = false → (r.step (.run k clock)).1.routes = r.routes ∧ (r.step (.run k clock)).2 = []
  counter : r.operationsInFlight = (r.routes.map (·.operationIds.length)).sum

theorem Kept.inert {r : Router P} {sent ran} (h : r.Kept sent ran) : r.Inert where
  unique i route hroute _ ho _ ho' hc hc' := (h.routes i route hroute).sound.counts_unique ho ho' hc hc'
  recorded i id result accepted := ⟨rfl, r.record_routes i id result accepted⟩
  repeated _ _ result accepted hid := congrArg (·, []) (r.record_repeated hid result accepted)
  stale _ clock _ _ _ htask hroute hstale := runTask_stale htask hroute hstale clock
  counter := h.counter

/-- The requests that a run makes for the route `i`. -/
def requested (i : Nat) (es : List (Event P)) : List Request :=
  (trace step {} es).flatMap fun t => sentTo i t.answer

/-- The operations of the route `i` whose completions a run has run. -/
def completions (i : Nat) (es : List (Event P)) : List Nat :=
  (trace step {} es).flatMap fun t => ranBy t.before t.event i

theorem run_kept {es : List (Event P)} (h : ∀ e ∈ es, e.Fits) :
    (exec step {} es).Kept (fun i => requested i es) (fun i => completions i es) := by
  suffices hrun : ∀ (r : Router P) sent ran, r.Kept sent ran →
      (exec step r es).Kept (fun i => sent i ++ (trace step r es).flatMap fun t => sentTo i t.answer)
        (fun i => ran i ++ (trace step r es).flatMap fun t => ranBy t.before t.event i) by
    refine hrun {} (fun _ => []) (fun _ => []) ?_
    exact ⟨fun i route hr => (by cases hr), fun task ht => (by cases ht), rfl, fun _ _ => ⟨rfl, rfl⟩⟩
  induction es with
  | nil =>
      intro r sent ran hk
      simpa using hk
  | cons e es ih =>
      intro r sent ran hk
      have hstep := hk.step (h e List.mem_cons_self)
      have hrest := ih (fun e' he' => h e' (List.mem_cons_of_mem _ he')) _ _ _ hstep
      simpa [List.append_assoc] using hrest

/-- Whatever the order of events, completions and tasks: completions that do not count are inert, each runs at most
once, and a range is asked for again only by the next attempt that the policy allows. -/
theorem stale_inert (es : List (Event P)) (h : ∀ e ∈ es, e.Fits) :
    (exec step {} es).Inert ∧
      ∀ i (route : Route P), (exec step {} es).routes[i]? = some route →
        (completions i es).Nodup ∧ Control.Budgeted Request.attempts route.maxAttempts (requested i es) ∧
          ∀ p ∈ requested i es, p.attempt ≤ route.maxAttempts := by
  have hk := run_kept h
  refine ⟨hk.inert, fun i route hroute => ?_⟩
  have hr := hk.routes i route hroute
  obtain ⟨h1, h2⟩ := hr.sound.budget
  exact ⟨(List.nodup_append.mp hr.once).1, h1, h2⟩

/-- A transport loss while a prefill is asked for: its completion comes late, twice, and runs after the prefill was
asked for again. -/
def latePrefill : List (Event Nat) :=
  [.subscribeBars "EURUSD" 60 { mode := .prefill, prefillBars := 3, retry := { maxAttempts := 2 } },
    .route 0 (.subscribed none (BarRoute.clockAt 600000)), .route 0 (.status .disconnected (BarRoute.clockAt 601000)),
    .route 0 (.status .ready (BarRoute.clockAt 660000)), .completed 0 0 (.bars { success := false }) true,
    .completed 0 0 (.bars { success := true }) true, .run 0 (BarRoute.clockAt 661000),
    .completed 0 1 (.bars { success := false }) true, .run 0 (BarRoute.clockAt 662000),
    .route 0 (.process (BarRoute.clockAt 663000))]

/-- Of the three requests only the last is a second attempt. -/
theorem stale_inert_late :
    (exec step {} latePrefill).Inert ∧ (exec step {} latePrefill).operationsInFlight = 1 ∧
      (requested 0 latePrefill).map Request.attempt = [1, 1, 2] ∧ completions 0 latePrefill = [0, 1] := by
  have hfits : ∀ e ∈ latePrefill, e.Fits := by
    simp [latePrefill, Event.Fits, RouteEvent.Fits, HistoryResult.Fits, RouteClock.Fits, BarRoute.clockAt, u64Max]
  exact ⟨(stale_inert latePrefill hfits).1, by decide, by decide, by decide⟩

end Router

/-! ## Chunks of a tick range -/

open Lib.Machine (Exact)

/-- The chunks of a tick range are finitely many, each within the range and the limit and further than the one before;
they hold every instant of the provider's grid and end at the target. No operation leaves 64 bits. -/
theorem tickHistoryRanges_cover (fromMs targetMs limit intervalMs : Nat) (hle : fromMs ≤ targetMs)
    (htarget : targetMs ≤ u64Max) (hlimit : limit ≤ u64Max) (hinterval : intervalMs ≤ u64Max)
    (hfromGrid : 0 < intervalMs → intervalMs ∣ fromMs) (htargetGrid : 0 < intervalMs → intervalMs ∣ targetMs) :
    (∃ fuel ranges, Checked.tickHistoryRanges fuel fromMs targetMs limit intervalMs = .ok (some ranges) ∧
      (∀ r ∈ ranges, fromMs ≤ r.1 ∧ r.1 ≤ r.2 ∧ r.2 ≤ targetMs ∧ (limit ≠ 0 → r.2 - r.1 + 1 ≤ max limit 1)) ∧
      (ranges.map (·.2)).Pairwise (· < ·) ∧
      (∀ timeMs, fromMs ≤ timeMs → timeMs ≤ targetMs → (0 < intervalMs → intervalMs ∣ timeMs) →
        ∃ r ∈ ranges, r.1 ≤ timeMs ∧ timeMs ≤ r.2) ∧
      (ranges.map (·.2)).getLast? = some targetMs) ∧
    (∀ a b, Checked.boundedTickHistoryToTimeMs a b limit intervalMs =
      .ok (boundedTickHistoryToTimeMs a b limit intervalMs)) ∧
    ∀ a b, Checked.nextTickHistoryRange a b limit intervalMs = .ok (nextTickHistoryRange a b limit intervalMs) := by
  have hbounded := fun a b => Checked.boundedTickHistoryToTimeMs_ok a b intervalMs hlimit
  refine ⟨?_, hbounded, fun a b => Checked.nextTickHistoryRange_ok a b hlimit hinterval⟩
  obtain ⟨⟨hfirst, hto, hon⟩, hspan, -⟩ :=
    boundedTickHistoryToTimeMs_spec limit hfromGrid htargetGrid hle htarget
  have hstart := hbounded fromMs targetMs
  generalize boundedTickHistoryToTimeMs fromMs targetMs limit intervalMs = toMs at *
  obtain ⟨ranges, hranges, hchain⟩ := Checked.followingRanges_chain htargetGrid htarget hlimit hinterval
    (targetMs - toMs + 1) toMs (Nat.lt_succ_self _) hon hto
  refine ⟨targetMs - toMs + 1, (fromMs, toMs) :: ranges, ?_, ?_, hchain.increasing, ?_, hchain.ends⟩
  · rw [Checked.tickHistoryRanges, hstart, Lib.Machine.ok_bind, hranges]
    rfl
  · intro r hr
    rcases List.mem_cons.mp hr with rfl | hr
    · exact ⟨le_rfl, hfirst, hto, fun h => (hspan h).trans (le_max_left _ _)⟩
    · obtain ⟨h1, h2, h3, h4⟩ := hchain.bounds r hr
      exact ⟨hfirst.trans h1, h2, h3, fun h => (h4 h).trans (le_max_left _ _)⟩
  · intro timeMs hfrom hto' hgrid
    by_cases hin : timeMs ≤ toMs
    · exact ⟨(fromMs, toMs), List.mem_cons_self, hfrom, hin⟩
    · obtain ⟨r, hr, hcover⟩ := hchain.covers timeMs (Nat.lt_of_not_le hin) hto' hgrid
      exact ⟨r, List.mem_cons_of_mem _ hr, hcover⟩

/-- A minute in chunks of twenty seconds on a grid of ten: each begins where the one before ended. -/
theorem tickHistoryRanges_cover_minute :
    Checked.tickHistoryRanges 6 60000 120000 20000 10000 =
        .ok (some [(60000, 70000), (70000, 80000), (80000, 90000), (90000, 100000), (100000, 110000), (110000, 120000)]) ∧
      ∃ fuel ranges, Checked.tickHistoryRanges fuel 60000 120000 20000 10000 = .ok (some ranges) ∧
        (ranges.map (·.2)).getLast? = some 120000 := by
  obtain ⟨⟨fuel, ranges, hranges, -, -, -, hlast⟩, -⟩ := tickHistoryRanges_cover 60000 120000 20000 10000
    (by decide) (by decide) (by decide) (by decide) (by decide) (by decide)
  exact ⟨by decide, fuel, ranges, hranges, hlast⟩

end OptionX.MarketData
