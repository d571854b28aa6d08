import OptionX.IntradeBar.Lemmas.ActiveTradesRuns
import OptionX.IntradeBar.Lemmas.BarAggregation
import OptionX.IntradeBar.Lemmas.BarHistoryUtils
import OptionX.IntradeBar.Lemmas.ClassicExpiry
import OptionX.IntradeBar.Lemmas.ObservedTickHistory
import OptionX.IntradeBar.Lemmas.TradingConditionManager

/-!
# The Intrade Bar platform

The bars of a subscription over any run of price updates and process cycles, and the snapshots of the active trades
over any run of events and replies; the slices of a bar history, and the archive of observed ticks.
-/

namespace OptionX.IntradeBar

open Lib (Step)
open Lib.Run (exec trace)
open MarketData (u64Max)

section

variable {P V : Type} [LinearOrder P] [Zero P] [Midpoint P] [Add V] [Zero V]

/-! ## Live bars -/

abbrev BarFeed.Taken (P V : Type) := Step (BarFeed P V) (BarFeed.Event P V) (List (Bar P V))

def BarFeed.Event.ticks : BarFeed.Event P V → List (Tick P V)
  | .priceUpdate ticks => ticks
  | .process _ => []

/-- The ticks that the steps did not drop, in the order of arrival. -/
def BarFeed.accepted (sub : BarSubscription) (steps : List (BarFeed.Taken P V)) : List (Tick P V) :=
  steps.flatMap fun step => acceptedTicks sub step.before.state step.event.ticks

/-- The bars sent to the callback, and after them those that wait for it. -/
def BarFeed.emitted (steps : List (BarFeed.Taken P V)) (feed : BarFeed P V) : List (Bar P V) :=
  steps.flatMap (·.answer) ++ feed.pending

omit [Zero V] in
theorem BarFeed.accepted_snoc (sub : BarSubscription) (steps : List (BarFeed.Taken P V)) (step : BarFeed.Taken P V) :
    BarFeed.accepted sub (steps ++ [step]) =
      BarFeed.accepted sub steps ++ acceptedTicks sub step.before.state step.event.ticks := by
  rw [BarFeed.accepted, List.flatMap_append, List.flatMap_singleton]
  rfl

theorem BarFeed.tracks (sub : BarSubscription) (es : List (BarFeed.Event P V)) :
    let steps := trace (BarFeed.step sub) .create es
    let feed := exec (BarFeed.step sub) .create es
    Tracks sub feed.state (BarFeed.accepted sub steps) (BarFeed.emitted steps feed) ∧
      Exact sub (BarFeed.accepted sub steps) (BarFeed.emitted steps feed) := by
  refine Lib.Run.history_induct' (H := fun steps feed => Tracks sub feed.state (BarFeed.accepted sub steps)
    (BarFeed.emitted steps feed) ∧ Exact sub (BarFeed.accepted sub steps) (BarFeed.emitted steps feed)) ?_ ?_ es
  · rintro steps feed event ⟨h, he⟩
    cases event with
    | priceUpdate ticks =>
        obtain ⟨added, hpending, htracks, hexact⟩ := h.appends he ticks feed.pending
        have hstep : (BarFeed.step sub feed (.priceUpdate ticks)).1 =
            ⟨(ticks.foldl (BarFeed.append sub) feed).state, feed.pending ++ added⟩ := hpending
        rw [hstep, BarFeed.accepted_snoc]
        have hemitted : BarFeed.emitted (steps ++ [Lib.Run.stepOf (BarFeed.step sub) feed (.priceUpdate ticks)])
            ⟨(ticks.foldl (BarFeed.append sub) feed).state, feed.pending ++ added⟩ =
              BarFeed.emitted steps feed ++ added := by
          simp [BarFeed.emitted, BarFeed.step]
        rw [hemitted]
        exact ⟨htracks, hexact⟩
    | process nowMs =>
        cases hs : sub.finalizeElapsedBar nowMs feed.state with
        | none =>
            simpa [BarFeed.accepted, BarFeed.emitted, BarFeed.Event.ticks, BarFeed.step, hs, acceptedTicks] using
              ⟨h, he⟩
        | some state =>
            obtain ⟨hinit, hopen, rfl⟩ := finalizeElapsedBar_some hs
            simpa [BarFeed.accepted, BarFeed.emitted, BarFeed.Event.ticks, BarFeed.step, hs, acceptedTicks] using
              h.finalize he hinit hopen
  · exact ⟨⟨fun _ => ⟨rfl, rfl⟩, fun h => (by cases h), fun h => (by cases h), fun h => (by cases h),
      fun h => (by cases h), fun _ h => (by cases h)⟩,
      ⟨fun _ h => (by cases h), .nil, fun pre _ _ h => (by cases pre <;> cases h), fun _ h => (by cases h),
      fun _ h => (by cases h)⟩⟩

/-- In every run the bars are exact for the ticks accepted, a tick is dropped when it is unusable or late and for no
other reason, and a `process` cycle sends the closing bar of every bucket that has ended on its clock. -/
theorem BarFeed.exact (sub : BarSubscription) (es : List (BarFeed.Event P V)) :
    let steps := trace (BarFeed.step sub) .create es
    let feed := exec (BarFeed.step sub) .create es
    let accepted := BarFeed.accepted sub steps
    Exact sub accepted (BarFeed.emitted steps feed) ∧
      (∀ t, sub.Drops feed.state t ↔ Unusable sub t ∨ Late sub (BarFeed.emitted steps feed) t) ∧
      ∀ nowMs ≤ u64Max, ∀ t ∈ accepted, sub.bucketMs t + sub.timeframeMs ≤ nowMs →
        ∃ b ∈ steps.flatMap (·.answer) ++ (BarFeed.step sub feed (.process nowMs)).2,
          b.timeMs = sub.bucketMs t ∧ b.flags.finalized = true := by
  obtain ⟨h, he⟩ := BarFeed.tracks sub es
  refine ⟨he, fun t => h.drops_iff he, fun nowMs hnow t ht hend => ?_⟩
  have hb := h.elapse he hnow t ht hend
  cases hs : sub.finalizeElapsedBar nowMs (exec (BarFeed.step sub) .create es).state <;>
    simpa [BarFeed.step, BarFeed.emitted, hs] using hb

end

/-- Minute bars of bid prices. -/
def minuteBars : BarSubscription := { timeframe := 60, priceSource := .bid, timeframe_pos := by decide }

instance : Midpoint Int := ⟨fun a b => (a + b) / 2⟩

/-- A quote without a time and without a time of receipt. -/
def undatedTick : Tick Int Int :=
  { ask := 3, bid := 2, last := 2, reference := 2, volume := 1, timeMs := 0, receivedMs := 0, initialized := true }

/-- The first tick of all is dropped, though no bar is there that it could be late for. -/
theorem BarFeed.undated_dropped :
    ¬ ∀ (sub : BarSubscription) (es : List (BarFeed.Event Int Int)) (t : Tick Int Int),
      t.initialized = true → t.price sub.priceSource ≠ 0 →
      (sub.Drops (exec (BarFeed.step sub) .create es).state t ↔
        Late sub (BarFeed.emitted (trace (BarFeed.step sub) .create es) (exec (BarFeed.step sub) .create es)) t) := by
  intro h
  obtain ⟨b, hb, -⟩ := (h minuteBars [] undatedTick rfl (by decide)).mp rfl
  cases hb

/-! ## Active trades -/

namespace ActiveTradesSyncManager

theorem sound_run (es : List Event) : Sound (exec step {} es).tasks (exec step {} es) :=
  Lib.Run.exec_induct (I := fun s => Sound s.tasks s) (fun _ e h => h.step e) .initial es

/-- What the last availability or snapshot event of a run has said. -/
def said (es : List Event) : Option Bool := lastReady ((trace step {} es).flatMap (·.answer))

theorem said_snoc (es : List Event) (e : Event) :
    said (es ++ [e]) = (lastReady ((exec step {} es).step e).2).or (said es) := by
  rw [said, Lib.Run.trace_append, List.flatMap_append, lastReady_append]
  simp [said]

theorem exec_snoc (es : List Event) (e : Event) :
    exec step ({} : ActiveTradesSyncManager) (es ++ [e]) = ((exec step {} es).step e).1 := Lib.Run.exec_append es [e]

/-- Every request has been sent by a step, in the account context that the step ends in. -/
theorem request_sent (es : List Event) : ∀ r ∈ (exec step {} es).requests, ∃ sent e mid, es = sent ++ e :: mid ∧
    .requested r ∈ ((exec step {} sent).step e).2 ∧
      r.accountContext.generation = (exec step {} (sent ++ [e])).accountContextGeneration := by
  induction es using List.reverseRecOn with
  | nil => simp
  | append_singleton es e ih =>
      have hsends := step_sends (sound_run es) e
      intro r hr
      rw [exec_snoc, hsends.requests, List.mem_append] at hr
      rcases hr with hr | hr
      · obtain ⟨sent, e', mid, rfl, hmem, hctx⟩ := ih r hr
        exact ⟨sent, e', mid ++ [e], by simp, hmem, hctx⟩
      · obtain ⟨n, hn, hnr⟩ := List.mem_filterMap.mp hr
        refine ⟨es, e, [], rfl, ?_, by rw [exec_snoc]; exact hsends.context r hr⟩
        cases n with
        | requested request => exact Option.some.inj hnr ▸ hn
        | availability | snapshot => cases hnr

/-- The account context counts the invalidations. -/
theorem exec_context {s : ActiveTradesSyncManager} (h : Sound s.tasks s) (es : List Event) :
    (exec step s es).accountContextGeneration =
      s.accountContextGeneration + ((trace step s es).filter fun st => st.before.invalidates st.event).length := by
  induction es generalizing s with
  | nil => rfl
  | cons e es ih =>
      rw [Lib.Run.exec_cons, ih (h.step e), step_context h e, Lib.Run.trace_cons, List.filter_cons]
      cases hi : s.invalidates e <;> simp [hi]
      omega

theorem published_once (es : List Event) :
    ((trace step {} es).filterMap published).Nodup ∧ ∀ n ∈ (trace step {} es).filterMap published,
      ∃ r, (exec step {} es).requests[n]? = some r ∧ r.generation ≠ (exec step {} es).activeSyncGeneration := by
  induction es using List.reverseRecOn with
  | nil => simp
  | append_singleton es e ih =>
      have hsound := sound_run es
      have hsends := step_sends hsound e
      have hold : ∀ n ∈ (trace step {} es).filterMap published, ∃ r,
          (exec step {} (es ++ [e])).requests[n]? = some r ∧
            r.generation ≠ (exec step {} (es ++ [e])).activeSyncGeneration := by
        intro n hn
        obtain ⟨r, hr, hne⟩ := ih.2 n hn
        have hbound := hsound.bounded r (List.mem_of_getElem? hr)
        rw [exec_snoc, hsends.requests]
        refine ⟨r, List.getElem?_append_left (List.getElem?_eq_some_iff.mp hr).1 ▸ hr, ?_⟩
        rcases hsends.active with hactive | hactive | hactive
        · rw [hactive]
          exact hne
        · omega
        · omega
      rw [Lib.Run.trace_append, List.filterMap_append]
      cases hsnapshot : ((exec step {} es).step e).2.any Notice.isSnapshot with
      | false =>
          have hnone : ((trace step (exec step {} es) [e]).filterMap published) = [] := by
            obtain ⟨nowMs, action⟩ := e
            cases action <;> simp [published, hsnapshot]
          rw [hnone, List.append_nil]
          exact ⟨ih.1, hold⟩
      | true =>
          obtain ⟨n, closeTimesMs, request, haction, hn, hg, -, -, hdone⟩ := step_snapshot hsound hsnapshot
          have hone : ((trace step (exec step {} es) [e]).filterMap published) = [n] := by
            simp [published, haction, hsnapshot]
          have hbound := hsound.bounded request (List.mem_of_getElem? hn)
          rw [hone]
          refine ⟨List.nodup_append.mpr ⟨ih.1, List.nodup_singleton n, fun m hm m' hm' => ?_⟩, fun m hm => ?_⟩
          · rintro rfl
            obtain ⟨r, hr, hne⟩ := ih.2 m hm
            rw [List.mem_singleton.mp hm', hn] at hr
            exact hne (Option.some.inj hr ▸ hg)
          · rcases List.mem_append.mp hm with hm | hm
            · exact hold m hm
            · rw [List.mem_singleton.mp hm, exec_snoc, hsends.requests, hdone]
              exact ⟨request, List.getElem?_append_left (List.getElem?_eq_some_iff.mp hn).1 ▸ hn, by omega⟩

/-- Where there is no work and no snapshot is available, a step has given up and no later one has asked. -/
theorem idle_run (es : List Event) (hidle : (exec step {} es).Idle) (hsaid : said es = some false) :
    ∃ pre e post, es = pre ++ e :: post ∧ (exec step {} pre).GivesUp e ∧
      ∀ st ∈ trace step (exec step {} (pre ++ [e])) post, ¬ st.before.Asks st.event := by
  induction es using List.reverseRecOn with
  | nil => cases hsaid
  | append_singleton es e ih =>
      rw [exec_snoc] at hidle
      rw [said_snoc] at hsaid
      rcases step_idle (sound_run es) hidle hsaid with hgives | ⟨hidle', hsaid', hasks⟩
      · exact ⟨es, e, [], rfl, hgives, by simp⟩
      · obtain ⟨pre, e', post, rfl, hgives, hnot⟩ := ih hidle' hsaid'
        refine ⟨pre, e', post ++ [e], by simp, hgives, fun st hst => ?_⟩
        rw [Lib.Run.trace_append, List.mem_append] at hst
        rcases hst with hst | hst
        · exact hnot st hst
        · rw [Lib.Run.trace_cons, Lib.Run.trace_nil, List.mem_singleton] at hst
          subst hst
          rw [← Lib.Run.exec_append, List.append_assoc]
          exact hasks

/-- In every run: a request's reply is published once at most, as a snapshot of the newest request, sent to the present
account context with no invalidation since, on a connected account; one request at most is current; and while the
account is connected and no snapshot is available, a request is current or a refresh waits, unless a step has given
up all work and none since has asked for any. -/
theorem snapshots_fresh (es : List Event) :
    ((trace step {} es).filterMap published).Nodup ∧
    (∀ pre e post, es = pre ++ e :: post → ((exec step {} pre).step e).2.any Notice.isSnapshot = true →
      ∃ n closeTimesMs request sent e₀ mid, e.action = .reply n closeTimesMs ∧
        (exec step {} pre).requests[n]? = some request ∧ (exec step {} pre).requests.getLast? = some request ∧
        pre = sent ++ e₀ :: mid ∧ .requested request ∈ ((exec step {} sent).step e₀).2 ∧
        (∀ st ∈ trace step (exec step {} (sent ++ [e₀])) mid, st.before.invalidates st.event = false) ∧
        (exec step {} pre).accountInfo.connect = true) ∧
    ((exec step {} es).requests.filter
      fun r => r.generation = (exec step {} es).activeSyncGeneration).length ≤ 1 ∧
    ((exec step {} es).accountInfo.connect = true → said es = some false →
      (∃ r ∈ (exec step {} es).requests, r.generation = (exec step {} es).activeSyncGeneration) ∨
      (exec step {} es).tasks ++ (exec step {} es).pendingTasks ≠ [] ∨
      ∃ pre e post, es = pre ++ e :: post ∧ (exec step {} pre).GivesUp e ∧
        ∀ st ∈ trace step (exec step {} (pre ++ [e])) post, ¬ st.before.Asks st.event) := by
  refine ⟨(published_once es).1, fun pre e post _ hsnapshot => ?_, ?_, fun _ hsaid => ?_⟩
  · have hsound := sound_run pre
    obtain ⟨n, closeTimesMs, request, haction, hn, hg, hc, hctx, -⟩ := step_snapshot hsound hsnapshot
    have hbound := hsound.bounded request (List.mem_of_getElem? hn)
    obtain ⟨-, r, hlast, hrg, hrctx⟩ := hsound.current (by omega)
    have hsame : r = request :=
      hsound.same (List.mem_of_getLast? hlast) (List.mem_of_getElem? hn) (hrg.trans hg.symm)
    subst hsame
    obtain ⟨sent, e₀, mid, rfl, hmem, hsentctx⟩ := request_sent pre r (List.mem_of_getElem? hn)
    refine ⟨n, closeTimesMs, r, sent, e₀, mid, haction, hn, hlast, rfl, hmem, fun st hst => ?_, hc⟩
    have hcount := exec_context (sound_run (sent ++ [e₀])) mid
    rw [← Lib.Run.exec_append, List.append_assoc, List.singleton_append, ← hrctx, ← hsentctx] at hcount
    have hempty : (trace step (exec step {} (sent ++ [e₀])) mid).filter (fun st => st.before.invalidates st.event) = [] :=
      List.length_eq_zero_iff.mp (by omega)
    simpa using List.filter_eq_nil_iff.mp hempty st hst
  · have hpairs := (sound_run es).sent.filter fun r => r.generation = (exec step {} es).activeSyncGeneration
    match hf : (exec step {} es).requests.filter fun r => r.generation = (exec step {} es).activeSyncGeneration with
    | [] => simp [hf]
    | [_] => simp [hf]
    | r :: r' :: rs =>
        have hr := List.mem_filter.mp (hf ▸ (List.mem_cons_self : r ∈ r :: r' :: rs))
        have hr' := List.mem_filter.mp (hf ▸ (List.mem_cons_of_mem r List.mem_cons_self : r' ∈ r :: r' :: rs))
        rw [hf] at hpairs
        have hlt := (List.pairwise_cons.mp hpairs).1 r' List.mem_cons_self
        simp only [decide_eq_true_eq] at hr hr'
        omega
  · by_cases hactive : (exec step {} es).activeSyncGeneration = 0
    · by_cases htasks : (exec step {} es).tasks ++ (exec step {} es).pendingTasks = []
      · exact .inr (.inr (idle_run es ⟨hactive, htasks⟩ hsaid))
      · exact .inr (.inl htasks)
    · obtain ⟨-, r, hr, hg, -⟩ := (sound_run es).current hactive
      exact .inl ⟨r, List.mem_of_getLast? hr, hg⟩

/-- A disconnect is requested on a connected account, with a request under way. -/
def disconnecting : List Event :=
  [⟨0, .account { connect := true, userId := 7, accountType := .demo, currency := .usd }⟩,
    ⟨0, .accountInfoUpdate .connected⟩, ⟨10, .disconnectRequest⟩]

theorem disconnect_waits : ¬ ∀ es, (exec step {} es).accountInfo.connect = true → said es = some false →
    (∃ r ∈ (exec step {} es).requests, r.generation = (exec step {} es).activeSyncGeneration) ∨
      (exec step {} es).tasks ++ (exec step {} es).pendingTasks ≠ [] := by
  intro h
  have hdead := h disconnecting (by decide) (by decide)
  revert hdead
  decide

end ActiveTradesSyncManager

/-! ## Trading conditions -/

namespace TradingConditionManager

open Components (ConditionScope TradingConditionUpdate)
open Components.TradingConditionUpdate (currentCondition cachedUpdates)
open TradeExecution (AccountType OptionType)

variable {F : Type} [Zero F] [DecidableEq F] (T : TimeShield)

/-- The manager after a run. -/
def after (accountInfo : Option (AccountInfoData F)) (es : List (Event F)) : TradingConditionManager F :=
  exec (step T) { accountInfo } es

/-- All updates that a run publishes. -/
def updates (accountInfo : Option (AccountInfoData F)) (es : List (Event F)) : List (TradingConditionUpdate F) :=
  (trace (step T) { accountInfo } es).flatMap (·.answer)

/-- The scope had a snapshot after some step. -/
def Seen (accountInfo : Option (AccountInfoData F)) (es : List (Event F)) (k : ConditionScope) : Prop :=
  ∃ pre, pre <+: es ∧ k ∈ ((after T accountInfo pre).current T).map (·.scope)

/-- The scope had a snapshot after some step and none after a later one. -/
def Left (accountInfo : Option (AccountInfoData F)) (es : List (Event F)) (k : ConditionScope) : Prop :=
  ∃ pre, pre <+: es ∧ Seen T accountInfo pre k ∧ k ∉ ((after T accountInfo pre).current T).map (·.scope)

theorem Seen.mono {accountInfo : Option (AccountInfoData F)} {pre es : List (Event F)} {k : ConditionScope}
    (h : Seen T accountInfo pre k) (hp : pre <+: es) : Seen T accountInfo es k :=
  h.imp fun _ h => ⟨h.1.trans hp, h.2⟩

theorem seen_snoc (accountInfo : Option (AccountInfoData F)) (es : List (Event F)) (e : Event F) (k : ConditionScope) :
    Seen T accountInfo (es ++ [e]) k ↔
      Seen T accountInfo es k ∨ (snapshotOf ((after T accountInfo (es ++ [e])).current T) k).isSome := by
  rw [Option.isSome_iff_ne_none, ne_eq, snapshotOf_eq_none, not_not]
  constructor
  · rintro ⟨pre, hp, hk⟩
    rcases List.prefix_concat_iff.mp hp with rfl | hp
    · exact .inr hk
    · exact .inl ⟨pre, hp, hk⟩
  · rintro (h | hk)
    · exact h.mono T (List.prefix_append _ _)
    · exact ⟨_, List.prefix_rfl, hk⟩

theorem left_snoc (accountInfo : Option (AccountInfoData F)) (es : List (Event F)) (e : Event F) (k : ConditionScope) :
    Left T accountInfo (es ++ [e]) k ↔ Left T accountInfo es k ∨
      (Seen T accountInfo es k ∨ (snapshotOf ((after T accountInfo (es ++ [e])).current T) k).isSome) ∧
        snapshotOf ((after T accountInfo (es ++ [e])).current T) k = none := by
  rw [← seen_snoc, snapshotOf_eq_none]
  constructor
  · rintro ⟨pre, hp, hk⟩
    rcases List.prefix_concat_iff.mp hp with rfl | hp
    · exact .inr hk
    · exact .inl ⟨pre, hp, hk⟩
  · rintro (⟨pre, hp, hk⟩ | hk)
    · exact ⟨pre, hp.trans (List.prefix_append _ _), hk⟩
    · exact ⟨_, List.prefix_rfl, hk⟩

theorem recorded_run (accountInfo : Option (AccountInfoData F)) (es : List (Event F)) :
    Recorded T (after T accountInfo es) :=
  Lib.Run.exec_induct (I := Recorded T) (fun _ e h => (Recorded.step T h e).1)
    (show Recorded T { accountInfo } from rfl) es

/-- Every scope, in every run. -/
theorem stands_run (accountInfo : Option (AccountInfoData F)) (es : List (Event F)) (k : ConditionScope) :
    Stands k (snapshotOf ((after T accountInfo es).current T) k)
      (currentCondition (cachedUpdates (updates T accountInfo es)) k) (Seen T accountInfo es k)
      (Left T accountInfo es k) := by
  induction es using List.reverseRecOn with
  | nil =>
      have hseen : ¬ Seen T accountInfo [] k := by
        rintro ⟨pre, hp, hk⟩
        rw [List.prefix_nil.mp hp] at hk
        cases hk
      exact {
        full := fun _ h => by cases h
        shaped := fun _ h => by cases h
        agrees := fun _ h => by cases h
        gone := fun _ _ h => by cases h
        known := by simpa [updates, cachedUpdates] using hseen
        lost := fun _ h => absurd h hseen
        message := fun _ h => by cases h }
  | append_singleton es e ih =>
      have hafter : after T accountInfo (es ++ [e]) = (step T (after T accountInfo es) e).1 :=
        Lib.Run.exec_append es [e]
      have hupdates : updates T accountInfo (es ++ [e]) =
          updates T accountInfo es ++ (step T (after T accountInfo es) e).2 := by
        simp [updates, after, Lib.Run.trace_append]
      obtain ⟨-, timestamp, message, hmessage, hpublished⟩ := (recorded_run T accountInfo es).step T e
      have hnew : ∀ u ∈ snapshotOf ((after T accountInfo (es ++ [e])).current T) k, Full u ∧ u.scope = k :=
        fun u hu => ⟨current_full T (snapshotOf_some hu).1, (snapshotOf_some hu).2⟩
      have hstep := ih.step hnew
        (fun ⟨pre, hp, hs, _⟩ => hs.mono T hp) timestamp hmessage
      refine Stands.mono ?_ (seen_snoc T accountInfo es e k) (left_snoc T accountInfo es e k)
      rw [hupdates, cachedUpdates, List.foldl_append, Components.TradingConditionUpdate.currentCondition_foldl,
        hpublished, ← hafter, published_scope (current_nodup T _) (current_nodup T _)]
      exact hstep

/-- In every run the merge of all published updates has, for each scope of the account identity that was last
evaluated, all values of its snapshot but perhaps the message, and it has the message too exactly when no current
scope has been without a snapshot since its first one; every other scope ever published is not tradable. -/
theorem reconstructs (accountInfo : Option (AccountInfoData F)) (es : List (Event F)) :
    let snapshots := (after T accountInfo es).current T
    let condition := currentCondition (cachedUpdates (updates T accountInfo es))
    ((∀ u ∈ snapshots, ∃ m, condition u.scope = some m ∧ sameValues m u = true) ↔
      ∀ u ∈ snapshots, ¬ Left T accountInfo es u.scope) ∧
    (∀ u ∈ snapshots, ∃ m, condition u.scope = some m ∧ sameValues { m with message := "" } u = true) ∧
    ∀ k m, condition k = some m → k ∉ snapshots.map (·.scope) → m.tradable = some false := by
  have hagrees : ∀ u ∈ (after T accountInfo es).current T, ∃ m,
      currentCondition (cachedUpdates (updates T accountInfo es)) u.scope = some m ∧ Agrees m u := fun u hu =>
    (stands_run T accountInfo es u.scope).agrees u (snapshotOf_mem (current_nodup T _) hu)
  refine ⟨forall₂_congr fun u hu => ?_, hagrees, fun k m hm hk =>
    (stands_run T accountInfo es k).gone (snapshotOf_eq_none.mpr hk) m hm⟩
  obtain ⟨m, hm, ha⟩ := hagrees u hu
  have hmessage := (stands_run T accountInfo es u.scope).message m hm
  simp [hm, sameValues_iff (current_full T hu), ha, hmessage]

/-- Seconds of a calendar without days off. -/
def plainCalendar : TimeShield where
  secOfDay t := t % 86400
  isDayOff _ := false
  startOfMin t := t - t % 60

def plainAccount (accountType : AccountType) : AccountInfoData Nat :=
  { currency := .usd, accountType, minUsdAmount := 1, maxUsdAmount := 700, maxUsdLimitAmount := 50, minRubAmount := 100,
    maxRubAmount := 50000, maxRubLimitAmount := 3500 }

/-- A demo account gives way to a real one and comes back. -/
def returningRun : List (Event Nat) :=
  [.accountInfoUpdate (some (plainAccount .demo)) .connected 36000,
    .accountInfoUpdate (some (plainAccount .real)) .accountTypeChanged 36001,
    .accountInfoUpdate (some (plainAccount .demo)) .accountTypeChanged 36002]

theorem message_stays :
    ¬ ∀ es : List (Event Nat), ∀ u ∈ (after plainCalendar none es).current plainCalendar,
      ∃ m, currentCondition (cachedUpdates (updates plainCalendar none es)) u.scope = some m ∧
        sameValues m u = true := by
  intro h
  let u := makeSnapshot plainCalendar (plainAccount .demo) "EURUSD" .sprint 36002 false
  have hu : u ∈ (after plainCalendar none returningRun).current plainCalendar :=
    List.mem_map.mpr ⟨("EURUSD", .sprint), by decide, rfl⟩
  obtain ⟨m, hm, hsame⟩ := h returningRun u hu
  have hleft : Left plainCalendar none returningRun u.scope := by
    refine ⟨returningRun.take 2, List.take_prefix _ _, ⟨returningRun.take 1, List.take_prefix_take_left ?_, ?_⟩, ?_⟩
    · decide
    · exact List.mem_map.mpr ⟨makeSnapshot plainCalendar (plainAccount .demo) "EURUSD" .sprint 36000 true,
        List.mem_map.mpr ⟨("EURUSD", .sprint), by decide, rfl⟩, rfl⟩
    · rintro hk
      obtain ⟨v, hv, hscope⟩ := List.mem_map.mp hk
      obtain ⟨scope, -, rfl⟩ := List.mem_map.mp hv
      have htype : AccountType.real = AccountType.demo := congrArg ConditionScope.accountType hscope
      cases htype
  have hmessage := (stands_run plainCalendar none returningRun u.scope).message m hm
  exact hmessage.mp ((sameValues_iff (current_full plainCalendar hu)).mp hsame).2 hleft

/-- At every second: what the check, the two conversions and the next expiry of the conditions have to do with each
other. An expiry three minutes ahead to the second passes the check alone. -/
theorem classicExpiry_agree_iff {F : Type} (T : TimeShield) (account : AccountInfoData F) {timestamp : Int}
    (hts : 0 ≤ timestamp) :
    (∀ expiry, account.expirationDateAvailable T .classic timestamp expiry = true →
      ((0 < calcExpiration timestamp expiry ∧ 300 ∣ calcExpiration timestamp expiry ∧
          calcExpiryTime timestamp ((calcExpiration timestamp expiry).tdiv 60) = expiry) ↔
        expiry - timestamp ≠ 180)) ∧
    (∀ minutes, 5 ≤ minutes → 5 ∣ minutes →
      300 ∣ calcExpiryTime timestamp minutes ∧ 180 < calcExpiryTime timestamp minutes - timestamp ∧
      (account.InSession T (calcExpiryTime timestamp minutes) →
        account.expirationDateAvailable T .classic timestamp (calcExpiryTime timestamp minutes) = true) ∧
      calcExpiration timestamp (calcExpiryTime timestamp minutes) = 60 * minutes) ∧
    (IsLeast {expiry | account.expirationDateAvailable T .classic timestamp expiry = true}
        (nextClassicExpiry timestamp) ↔
      account.InSession T (nextClassicExpiry timestamp) ∧
        ¬ account.expirationDateAvailable T .classic timestamp (timestamp + 180) = true) := by
  refine ⟨fun expiry havailable => ?_, fun minutes hleast hdvd => ?_, nextClassicExpiry_isLeast_iff hts⟩
  · obtain ⟨-, hdvd, hlead⟩ := expirationDateAvailable_iff.mp havailable
    constructor
    · rintro ⟨hpos, -⟩ hclose
      rw [calcExpiration_of_close hclose.le] at hpos
      exact absurd hpos (lt_irrefl 0)
    · intro hne
      have hahead : 180 < expiry - timestamp := lt_of_le_of_ne hlead hne.symm
      have hvalue := calcExpiration_eq hdvd hahead
      exact ⟨by omega, by omega, calcExpiryTime_calcExpiration hts hdvd hahead⟩
  · have hwhole : 300 ∣ calcExpiryTime timestamp minutes := by
      rw [calcExpiryTime_eq hts hleast hdvd]
      exact Dvd.intro_left _ rfl
    have hlead := calcExpiryTime_lead hts hleast hdvd
    exact ⟨hwhole, hlead, fun hsession => expirationDateAvailable_iff.mpr ⟨hsession, hwhole, hlead.le⟩,
      calcExpiration_calcExpiryTime hts hleast hdvd⟩

theorem classicExpiry_agree_iff_noon :
    calcExpiryTime 43201 5 = 43500 ∧ calcExpiration 43201 43500 = 300 ∧
      (plainAccount .demo).expirationDateAvailable plainCalendar .classic 43201 43500 = true := by
  obtain ⟨-, -, hsession, hminutes⟩ := (classicExpiry_agree_iff plainCalendar (plainAccount .demo)
    (by decide : (0 : Int) ≤ 43201)).2.1 5 (by decide) (by decide)
  exact ⟨rfl, hminutes, hsession ⟨by decide, by decide⟩⟩

/-- Three minutes before an expiry the check accepts it, the conversion has none, and the next one is five minutes on. -/
theorem classicExpiry_threeMinutes :
    (plainAccount .demo).expirationDateAvailable plainCalendar .classic 43320 43500 = true ∧
      calcExpiration 43320 43500 = 0 ∧ nextClassicExpiry 43320 = 43800 := by
  decide

end TradingConditionManager

/-! ## Bar history -/

section

open Lib.Machine

variable {P V : Type}

/-- The slices split the slots of a request into runs that one request may ask for; the dense check accepts exactly
the bars of all slots, and so does it the bars of dense answers to all slices. -/
theorem barHistory_dense {request : BarHistoryRequest} {maxBars : Int} (hfrom : 0 < request.fromTs)
    (hle : request.fromTs ≤ request.toTs) (hto : request.toTs ≤ int64Max) (htf : 0 < request.timeframe)
    (htf' : request.timeframe ≤ int64Max) (hmax : 0 < maxBars) (hmax' : maxBars ≤ int64Max)
    (hspan : request.timeframe * (maxBars - 1) ≤ int64Max) :
    ∃ fuel chunks,
      buildBarHistoryChunks fuel request.fromTs request.toTs request.timeframe maxBars = .ok (some chunks) ∧
      chunks.Pairwise (fun a b => a.toTs < b.fromTs) ∧
      (∀ c ∈ chunks, request.fromTs ≤ c.fromTs ∧ c.fromTs ≤ c.toTs ∧ c.toTs ≤ request.toTs ∧
        1 ≤ (request.slotsIn c).length ∧ ((request.slotsIn c).length : Int) ≤ maxBars) ∧
      (∀ k : Nat, request.fromTs + k * request.timeframe ≤ request.toTs → ∃! c, c ∈ chunks ∧
        c.fromTs ≤ request.fromTs + k * request.timeframe ∧ request.fromTs + k * request.timeframe ≤ c.toTs) ∧
      (request.timeframe ≤ int32Max →
        (∀ sequence : BarSequence P V, ∃ dense, barSequenceCoversDenseRange sequence request = .ok dense ∧
          (dense = true ↔ sequence.Answers request ∧ request.toTs ≤ maxDenseTs ∧
            sequence.bars.map (fun bar => (bar.timeMs : Int)) =
              (slots request.fromTs request.toTs request.timeframe).map (· * 1000))) ∧
        (request.toTs ≤ maxDenseTs → ∀ (answers : List (BarSequence P V)) (sequence : BarSequence P V),
          List.Forall₂ (fun c answer => barSequenceCoversDenseRange answer (request.slice c) = .ok true)
            chunks answers →
          sequence.Answers request → sequence.bars = answers.flatMap (·.bars) →
            barSequenceCoversDenseRange sequence request = .ok true)) := by
  obtain ⟨fuel, chunks, hchunks, hslices⟩ := buildBarHistoryChunks_slices hfrom hle hto htf htf' hmax hmax' hspan
  refine ⟨fuel, chunks, hchunks, hslices.ordered, fun c hc => ?_, fun k hk => ?_, fun htf32 => ⟨?_, ?_⟩⟩
  · obtain ⟨h1, h2, h3⟩ := hslices.bounds c hc
    rw [BarHistoryRequest.slotsIn, hslices.slots_within htf hc]
    exact ⟨h1, h2, h3, hslices.slots_length htf hc⟩
  · exact hslices.slot_in_one htf ((mem_slots htf).mpr ⟨k, rfl, hk⟩)
  · intro sequence
    by_cases hdated : request.toTs ≤ maxDenseTs
    · obtain ⟨dense, hdense, hiff⟩ := covers_eq sequence hfrom hle hdated htf htf32
      exact ⟨dense, hdense, by rw [hiff, and_iff_right hdated]⟩
    · exact ⟨false, covers_undated (by omega), by simp [hdated]⟩
  · intro hdated answers sequence hanswers hown hbars
    rw [covers_bars hfrom hle hdated htf htf32, hbars]
    exact ⟨hown, hslices.answered hfrom hdated htf htf32 hanswers⟩

/-- Three minutes in slices of two bars. -/
theorem barHistory_dense_minutes : ∃ fuel chunks, buildBarHistoryChunks fuel 60 180 60 2 = .ok (some chunks) ∧
    chunks.Pairwise (fun a b => a.toTs < b.fromTs) := by
  obtain ⟨fuel, chunks, hchunks, hordered, -⟩ := @barHistory_dense Nat Nat ⟨"EURUSD", 60, 60, 180⟩ 2
    (by decide) (by decide) (by decide) (by decide) (by decide) (by decide) (by decide) (by decide)
  exact ⟨fuel, chunks, hchunks, hordered⟩

/-- A span of slices that leaves the 64-bit range, and a last second that the dense check does not count. -/
theorem barHistory_edges :
    (∀ fuel, buildBarHistoryChunks fuel 1 5 (2 ^ 62) 4 = .error .signed) ∧
    ∃ (sequence : BarSequence Nat Nat) (request : BarHistoryRequest), sequence.Answers request ∧
      sequence.bars.map (fun bar => (bar.timeMs : Int)) =
        (slots request.fromTs request.toTs request.timeframe).map (· * 1000) ∧
      barSequenceCoversDenseRange sequence request = .ok false := by
  refine ⟨fun fuel => rfl, ⟨[⟨1, 1, 1, 1, 1, 18446744073709551000, {}, true, .mid⟩], "EURUSD", 60⟩,
    ⟨"EURUSD", 60, 18446744073709551, 18446744073709552⟩, ⟨rfl, by decide, by decide, rfl⟩, by decide, ?_⟩
  exact covers_undated (by decide)

end

/-! ## The archive of observed ticks -/

namespace IntradeObservedTickHistory

open Lib.Run (exec)
open Lib.Machine (uint64Max int64Min int64Max)

section

variable {P V : Type} [BEq P] [BEq V]

/-- Whatever was recorded, the archive says no more of a range than it can know. -/
theorem never_overstates {options : IntradeObservedTickHistoryOptions} (hvalid : options.valid = true)
    (events : List (TickHistoryEvent P V)) :
    let s := exec (step options) {} events
    (∀ symbol,
      (s.retained symbol).Sublist (observed symbol events) ∧
      (s.retained symbol).Pairwise (fun earlier later => sameMarketObservation earlier later = false) ∧
      (s.retained symbol).length ≤ options.maxItemsPerSymbol ∧
      (options.maxLookbackMs ≠ 0 → ∀ tick ∈ s.retained symbol, ∀ other ∈ s.retained symbol,
        tick.timeMs ≤ other.timeMs + options.maxLookbackMs) ∧
      ∀ tick ∈ observed symbol events, Represented (s.retained symbol) tick ∨
        (∀ other ∈ s.retained symbol, tick.timeMs ≤ other.timeMs) ∨
        (options.maxLookbackMs ≠ 0 ∧ ∃ newest ∈ s.retained symbol,
          tick.timeMs + options.maxLookbackMs < newest.timeMs)) ∧
    (∀ request : TickHistoryRequest, request.toTimeMs ≤ uint64Max →
      ∀ fuel, (s.retained request.symbol).length < fuel → ∃ result, s.fetch options fuel request = some result ∧
        if request.valid = true ∧
            (options.maxLookbackMs = 0 ∨ request.toTimeMs - request.fromTimeMs ≤ options.maxLookbackMs) then
          AnswersRange options (s.retained request.symbol) request result
        else result.success = false ∧ result.rangeComplete = false ∧ result.sequence.ticks = []) ∧
    s.clock.offsetsMs = lastOffsets options (samples options events) ∧
    (∀ localTimeMs ≤ uint64Max, hasFreshClockEstimate options s.clock localTimeMs = true →
      (s.providerTimeMs options localTimeMs : Int) = brokerTime options s.clock.offsetsMs localTimeMs) ∧
    ∀ earlier later, earlier ≤ later → later ≤ uint64Max →
      hasFreshClockEstimate options s.clock earlier = true → hasFreshClockEstimate options s.clock later = true →
      s.providerTimeMs options earlier ≤ s.providerTimeMs options later := by
  have hmax : 0 < options.maxItemsPerSymbol ∧ 0 < options.samplingIntervalMs := by
    simpa [IntradeObservedTickHistoryOptions.valid] using hvalid
  obtain ⟨hmax, hinterval⟩ := hmax
  intro s
  have hoffsets : s.clock.offsetsMs = lastOffsets options (samples options events) := exec_lastOffsets events
  have hrange : ∀ offset ∈ s.clock.offsetsMs, int64Min ≤ offset ∧ offset ≤ int64Max := by
    rw [hoffsets]
    exact lastOffsets_range options _
  have htime : ∀ localTimeMs ≤ uint64Max, hasFreshClockEstimate options s.clock localTimeMs = true →
      (s.providerTimeMs options localTimeMs : Int) = brokerTime options s.clock.offsetsMs localTimeMs :=
    fun _ hlocal hfresh => providerTimeMs_fresh hinterval hrange hlocal hfresh
  refine ⟨fun symbol => ?_, fun request hto fuel hfuel => ?_, hoffsets, htime, ?_⟩
  · by_cases hsymbol : symbol = ""
    · have hnone : s.retained "" = [] := exec_retained_empty events
      rw [hsymbol, hnone]
      exact ⟨List.nil_sublist _, .nil, Nat.zero_le _, fun _ _ h => absurd h List.not_mem_nil,
        fun _ _ => .inr (.inl fun _ h => absurd h List.not_mem_nil)⟩
    · have hretained : Retained options (observed symbol events) (s.retained symbol) :=
        exec_retained hmax hsymbol events
      exact ⟨hretained.sublist, hretained.distinct, hretained.bounded, hretained.span,
        fun _ htick => hretained.left_out htick⟩
  · by_cases hserved : request.valid = true ∧
        (options.maxLookbackMs = 0 ∨ request.toTimeMs - request.fromTimeMs ≤ options.maxLookbackMs)
    · obtain ⟨result, hresult, hanswers⟩ := s.fetch_answers hinterval hserved.1 hserved.2 hto hfuel
      exact ⟨result, hresult, by rw [if_pos hserved]; exact hanswers⟩
    · obtain ⟨message, hmessage⟩ := s.fetch_refuses fuel hserved
      exact ⟨_, hmessage, by rw [if_neg hserved]; exact ⟨rfl, rfl, rfl⟩⟩
  · intro earlier later hle hlater hfresh hfresh'
    have h := brokerTime_mono hinterval s.clock.offsetsMs hle
    rw [← htime earlier (hle.trans hlater) hfresh, ← htime later hlater hfresh'] at h
    exact_mod_cast h

/-- One tick that comes a second after its time, and the range of that second. -/
theorem never_overstates_one : (exec (step {})
    ({} : IntradeObservedTickHistory Nat Nat)
    [.record [{ symbol := "EURUSD", items := [⟨1, 1, 0, 0, 0, 1000, 2000, true⟩] }]]).clock.offsetsMs =
      lastOffsets {} (samples {}
        [.record [{ symbol := "EURUSD", items := [⟨1, 1, 0, 0, 0, 1000, 2000, true⟩] }]]) :=
  (never_overstates (by decide : ({} : IntradeObservedTickHistoryOptions).valid = true) _).2.2.1

/-- A sample too old gives no estimate, and the time of the broker goes back to zero. -/
theorem providerTimeMs_stale : ∃ events : List (TickHistoryEvent Nat Nat), ∃ earlier later, earlier ≤ later ∧
    ¬ (exec (step {}) {} events).providerTimeMs {} earlier ≤ (exec (step {}) {} events).providerTimeMs {} later := by
  refine ⟨[.record [{ symbol := "EURUSD", items := [⟨1, 1, 0, 0, 0, 2000, 2000, true⟩] }]], 2000, 70000, by decide, ?_⟩
  decide

end

end IntradeObservedTickHistory

end OptionX.IntradeBar
