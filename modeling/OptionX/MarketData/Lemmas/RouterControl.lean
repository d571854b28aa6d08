import OptionX.MarketData.Router
import OptionX.MarketData.Lemmas.BarControl
import OptionX.MarketData.Lemmas.TickControl

/-!
# The control of the router

A route is orderly together with the completions that wait for the owner. Handling an event, recording a completion
and running a task keep every route orderly, whichever comes next.
-/

namespace OptionX.MarketData

open Control (Budgeted Carries)

variable {P : Type}

/-! ## Requests of both kinds -/

/-- Which attempt at its range a request is. -/
def Request.attempt : Request → Nat
  | .bars p => p.attempt
  | .ticks p => p.attempt

/-- The next attempt at the same range. -/
def Request.again : Request → Request
  | .bars p => .bars { p with announceGap := false, attempt := p.attempt + 1 }
  | .ticks p => .ticks { p with announceGap := false, attempt := p.attempt + 1 }

def Request.attempts : Attempts Request where
  attempt := attempt
  again := again
  good _ := True
  attempt_again p := by cases p <;> rfl
  good_again _ _ := trivial

def Sent.map {R R' : Type} (f : R → R') (o : Sent R) : Sent R' := ⟨o.id, f o.pending, o.generation⟩

theorem Sent.map_ids {R R' : Type} (f : R → R') (os : List (Sent R)) :
    (os.map (Sent.map f)).map Sent.id = os.map Sent.id := by
  rw [List.map_map]
  rfl

theorem Sent.perm_map {R R' : Type} {f : R → R'} {os : List (Sent R')} {os' : List (Sent R)}
    (h : os.Perm (os'.map (Sent.map f))) : ∃ os'' : List (Sent R), os = os''.map (Sent.map f) ∧ os''.Perm os' :=
  (congrFun (congrFun (List.eq_map_comp_perm (Sent.map f)) os) os').mpr h

theorem Control.Budgeted.map {R R' : Type} {A : Attempts R} {B : Attempts R'} (f : R → R')
    (hattempt : ∀ p, B.attempt (f p) = A.attempt p) (hagain : ∀ p, f (A.again p) = B.again (f p)) {max : Nat}
    {ps : List R} (h : Budgeted A max ps) : Budgeted B max (ps.map f) := by
  induction h with
  | nil => exact .nil
  | first _ h1 ih =>
      rw [List.map_append]
      exact .first ih ((hattempt _).trans h1)
  | again _ hlast hlt ih =>
      rw [List.map_append, List.map_singleton, hagain]
      refine .again ih ?_ ((hattempt _).trans_lt hlt)
      rw [List.getLast?_map, hlast]
      rfl

def Notice.sent : Notice P → Option (Sent Request)
  | .bars n => (BarRoute.sentBy n).map (Sent.map .bars)
  | .ticks n => (TickRoute.sentBy n).map (Sent.map .ticks)

def requestsOf (ns : List (Notice P)) : List (Sent Request) := ns.filterMap Notice.sent

theorem requestsOf_bars (ns : List BarNotice) :
    requestsOf (ns.map .bars : List (Notice P)) = (BarRoute.sentOf ns).map (Sent.map .bars) := by
  rw [requestsOf, BarRoute.sentOf, List.filterMap_map, List.map_filterMap]
  rfl

theorem requestsOf_ticks (ns : List (TickNotice P)) :
    requestsOf (ns.map .ticks) = (TickRoute.sentOf ns).map (Sent.map .ticks) := by
  rw [requestsOf, TickRoute.sentOf, List.filterMap_map, List.map_filterMap]
  rfl

theorem countP_isRequest (ns : List (Notice P)) : ns.countP Notice.isRequest = (requestsOf ns).length := by
  induction ns with
  | nil => rfl
  | cons n ns ih =>
      have hn : n.isRequest = n.sent.isSome := by
        cases n with
        | bars n => cases n <;> rfl
        | ticks n => cases n <;> rfl
      rw [List.countP_cons, ih, hn, requestsOf, requestsOf, List.filterMap_cons]
      cases n.sent <;> rfl

def Completion.sent : Completion P → Sent Request
  | .bars operation _ => .map .bars (BarRoute.sentOperation operation)
  | .ticks operation _ => .map .ticks (TickRoute.sentOperation operation)

theorem Completion.sent_id (c : Completion P) : c.sent.id = c.id := by
  cases c <;> rfl

/-! ## Routes -/

namespace Route

def unfinished : Route P → List (Sent Request)
  | .bars s => s.unfinished.map (.map .bars)
  | .ticks s => s.unfinished.map (.map .ticks)

theorem unfinished_ids (r : Route P) : r.unfinished.map (·.id) = r.operationIds := by
  cases r with
  | bars s => simp [unfinished, BarRoute.unfinished, operationIds, Sent.map, BarRoute.sentOperation]
  | ticks s => simp [unfinished, TickRoute.unfinished, operationIds, Sent.map, TickRoute.sentOperation]

def next : Route P → Nat
  | .bars s => s.nextOperation
  | .ticks s => s.nextOperation

def enabled : Route P → Bool
  | .bars s => s.mode.enabled
  | .ticks s => s.mode.enabled

/-- A route is orderly with the completions `extra` and the requests that were ever sent. -/
def Orderly (r : Route P) (extra : List (Sent Request)) (sent : List Request) : Prop :=
  match r with
  | .bars s => ∃ ops ps, extra = ops.map (.map .bars) ∧ sent = ps.map .bars ∧ s.Orderly ops ps
  | .ticks s => ∃ ops ps, extra = ops.map (.map .ticks) ∧ sent = ps.map .ticks ∧ s.Orderly ops ps

/-- A route that can send requests at all has a retry policy. -/
structure Sound (r : Route P) (extra : List (Sent Request)) (sent : List Request) : Prop where
  orderly : r.Orderly extra sent
  policy : 0 < r.maxAttempts ∨ r.enabled = false ∧ sent = []

/-- What a route does with its identities. -/
structure Goes (r : Route P) (t : Route P × List (Notice P)) : Prop where
  unfinished : t.1.unfinished = r.unfinished ++ requestsOf t.2
  counted : r.next ≤ t.1.next
  ids : ∀ o ∈ requestsOf t.2, r.next ≤ o.id
  maxAttempts : t.1.maxAttempts = r.maxAttempts
  disabled : r.enabled = false → requestsOf t.2 = [] ∧ t.1.enabled = false

theorem Goes.stay (r : Route P) : Goes r (r, []) where
  unfinished := (List.append_nil _).symm
  counted := le_rfl
  ids o ho := by cases ho
  maxAttempts := rfl
  disabled h := ⟨rfl, h⟩

theorem Goes.of_bars {s s' : BarRoute} {ns : List BarNotice} (hu : s'.unfinished = s.unfinished ++ BarRoute.sentOf ns)
    (h : Carries s.control (BarRoute.sentOf ns) s'.control) (hr : s.mode.enabled = false → s.retryRequest = none) :
    Goes (.bars s : Route P) (.bars s', ns.map .bars) where
  unfinished := by
    rw [requestsOf_bars]
    exact (congrArg _ hu).trans List.map_append
  counted := h.next
  ids o ho := by
    rw [requestsOf_bars] at ho
    obtain ⟨o', ho', rfl⟩ := List.mem_map.mp ho
    exact h.ids o' ho'
  maxAttempts := h.maxAttempts
  disabled hd := by
    obtain ⟨h1, h2, -⟩ := h.disabled hd (hr hd)
    rw [requestsOf_bars, h1]
    exact ⟨rfl, h2⟩

theorem Goes.of_ticks {s s' : TickRoute P} {ns : List (TickNotice P)}
    (hu : s'.unfinished = s.unfinished ++ TickRoute.sentOf ns)
    (h : Carries s.control (TickRoute.sentOf ns) s'.control) (hr : s.mode.enabled = false → s.retryRequest = none) :
    Goes (.ticks s) (.ticks s', ns.map .ticks) where
  unfinished := by
    rw [requestsOf_ticks]
    exact (congrArg _ hu).trans List.map_append
  counted := h.next
  ids o ho := by
    rw [requestsOf_ticks] at ho
    obtain ⟨o', ho', rfl⟩ := List.mem_map.mp ho
    exact h.ids o' ho'
  maxAttempts := h.maxAttempts
  disabled hd := by
    obtain ⟨h1, h2, -⟩ := h.disabled hd (hr hd)
    rw [requestsOf_ticks, h1]
    exact ⟨rfl, h2⟩

theorem Sound.goes {r : Route P} {extra extra' sent} (h : r.Sound extra sent) {t : Route P × List (Notice P)}
    (ho : t.1.Orderly extra' (sent ++ (requestsOf t.2).map (·.pending))) (hg : r.Goes t) :
    t.1.Sound extra' (sent ++ (requestsOf t.2).map (·.pending)) where
  orderly := ho
  policy := by
    rw [hg.maxAttempts]
    rcases h.policy with hp | ⟨hd, hsent⟩
    · exact .inl hp
    · obtain ⟨h1, h2⟩ := hg.disabled hd
      rw [h1, hsent]
      exact .inr ⟨h2, rfl⟩

theorem requestsOf_bars_pending (ps : List PendingContinuityRequest) (ns : List BarNotice) :
    ps.map Request.bars ++ (requestsOf (ns.map .bars : List (Notice P))).map (·.pending) =
      (ps ++ (BarRoute.sentOf ns).map (·.pending)).map Request.bars := by
  rw [requestsOf_bars, List.map_append, List.map_map, List.map_map]
  rfl

theorem requestsOf_ticks_pending (ps : List PendingTickContinuityRequest) (ns : List (TickNotice P)) :
    ps.map Request.ticks ++ (requestsOf (ns.map .ticks)).map (·.pending) =
      (ps ++ (TickRoute.sentOf ns).map (·.pending)).map Request.ticks := by
  rw [requestsOf_ticks, List.map_append, List.map_map, List.map_map]
  rfl

/-! ## What a route keeps -/

theorem Sound.nodup {r : Route P} {extra sent} (h : r.Sound extra sent) :
    ((r.unfinished ++ extra).map (·.id)).Nodup ∧ ∀ o ∈ r.unfinished ++ extra, o.id < r.next := by
  cases r with
  | bars s =>
      obtain ⟨ops, ps, rfl, -, h⟩ := h.orderly
      rw [unfinished, ← List.map_append]
      refine ⟨?_, fun o ho => ?_⟩
      · rw [Sent.map_ids]
        exact h.sound.nodup
      · obtain ⟨o', ho', rfl⟩ := List.mem_map.mp ho
        exact h.sound.ids o' ho'
  | ticks s =>
      obtain ⟨ops, ps, rfl, -, h⟩ := h.orderly
      rw [unfinished, ← List.map_append]
      refine ⟨?_, fun o ho => ?_⟩
      · rw [Sent.map_ids]
        exact h.sound.nodup
      · obtain ⟨o', ho', rfl⟩ := List.mem_map.mp ho
        exact h.sound.ids o' ho'

/-- The attempts of a route stay within the policy. -/
theorem Sound.budget {r : Route P} {extra sent} (h : r.Sound extra sent) :
    Budgeted Request.attempts r.maxAttempts sent ∧ ∀ p ∈ sent, p.attempt ≤ r.maxAttempts := by
  have hb : Budgeted Request.attempts r.maxAttempts sent := by
    cases r with
    | bars s =>
        obtain ⟨ops, ps, -, rfl, hs⟩ := h.orderly
        exact hs.sound.budget.map Request.bars (fun _ => rfl) fun _ => rfl
    | ticks s =>
        obtain ⟨ops, ps, -, rfl, hs⟩ := h.orderly
        exact hs.sound.budget.map Request.ticks (fun _ => rfl) fun _ => rfl
  refine ⟨hb, ?_⟩
  rcases h.policy with hp | ⟨-, rfl⟩
  · exact hb.attempt_le hp
  · exact fun p hp => by cases hp

/-- A request counts while it is in flight for an active route in its generation. -/
def counts : Route P → Sent Request → Bool
  | .bars s, o => s.active && s.requestInFlight && s.generation == o.generation
  | .ticks s, o => s.active && s.requestInFlight && s.generation == o.generation

theorem Sound.counts_unique {r : Route P} {extra sent} (h : r.Sound extra sent) {o o' : Sent Request}
    (ho : o ∈ r.unfinished ++ extra) (ho' : o' ∈ r.unfinished ++ extra) (hc : r.counts o = true)
    (hc' : r.counts o' = true) : o = o' := by
  cases r with
  | bars s =>
      obtain ⟨ops, ps, rfl, -, h⟩ := h.orderly
      rw [unfinished, ← List.map_append] at ho ho'
      obtain ⟨x, hx, rfl⟩ := List.mem_map.mp ho
      obtain ⟨x', hx', rfl⟩ := List.mem_map.mp ho'
      simp only [counts, Bool.and_eq_true, beq_iff_eq] at hc hc'
      rw [h.sound.current_unique hc.1.2 hx hx' hc.2.symm hc'.2.symm]
  | ticks s =>
      obtain ⟨ops, ps, rfl, -, h⟩ := h.orderly
      rw [unfinished, ← List.map_append] at ho ho'
      obtain ⟨x, hx, rfl⟩ := List.mem_map.mp ho
      obtain ⟨x', hx', rfl⟩ := List.mem_map.mp ho'
      simp only [counts, Bool.and_eq_true, beq_iff_eq] at hc hc'
      rw [h.sound.current_unique hc.1.2 hx hx' hc.2.symm hc'.2.symm]

end Route

/-! ## What a route does -/

/-- Clocks and tick times of an event are 64-bit values. -/
def RouteEvent.Fits : RouteEvent P → Prop
  | .subscribed _ clock | .status _ clock | .process clock => clock.Fits
  | .ticks batch => ∀ tick ∈ batch.items, tick.timeMs ≤ u64Max
  | .bars _ | .unsubscribe | .subscriberGone => True

def HistoryResult.Fits : HistoryResult P → Prop
  | .bars _ => True
  | .ticks result => ∀ tick ∈ result.ticks, tick.timeMs ≤ u64Max

def Completion.Fits : Completion P → Prop
  | .bars _ _ => True
  | .ticks _ result => ∀ tick ∈ result.ticks, tick.timeMs ≤ u64Max

namespace Route

theorem Sound.no_retry {s : BarRoute} {extra sent} (h : (.bars s : Route P).Sound extra sent) :
    s.mode.enabled = false → s.retryRequest = none := by
  obtain ⟨ops, ps, -, -, h⟩ := h.orderly
  exact fun hd => (h.sound.disabled hd).2.2

theorem Sound.no_tick_retry {s : TickRoute P} {extra sent} (h : (.ticks s : Route P).Sound extra sent) :
    s.mode.enabled = false → s.retryRequest = none := by
  obtain ⟨ops, ps, -, -, h⟩ := h.orderly
  exact fun hd => (h.sound.disabled hd).2.2

theorem Sound.bar_step {s : BarRoute} {extra sent} (h : (.bars s : Route P).Sound extra sent) {e : BarRoute.Event}
    (he : ∀ id result clock, e ≠ .history id result clock) :
    let t : Route P × List (Notice P) := (.bars (s.step e).1, (s.step e).2.map .bars)
    t.1.Sound extra (sent ++ (requestsOf t.2).map (·.pending)) ∧ (.bars s : Route P).Goes t := by
  have hretry := h.no_retry
  obtain ⟨ops, ps, rfl, rfl, hs⟩ := h.orderly
  obtain ⟨hu, hcarries⟩ := hs.step_carries he
  have hgoes : (.bars s : Route P).Goes (.bars (s.step e).1, (s.step e).2.map .bars) :=
    .of_bars hu hcarries hretry
  exact ⟨h.goes ⟨ops, _, rfl, requestsOf_bars_pending _ _, hs.step he⟩ hgoes, hgoes⟩

theorem Sound.stay {r : Route P} {extra sent} (h : r.Sound extra sent) :
    r.Sound extra (sent ++ (requestsOf ([] : List (Notice P))).map (·.pending)) := by
  have hnil : (requestsOf ([] : List (Notice P))).map (·.pending) = [] := rfl
  rwa [hnil, List.append_nil]

/-- The first completion of an operation is recorded. -/
theorem Sound.record {r : Route P} {extra sent} (h : r.Sound extra sent) {id : Nat} {result : HistoryResult P}
    {c : Completion P} (hc : r.completion id result = some c) :
    (r.answered id).Sound (c.sent :: extra) sent := by
  cases r with
  | bars s =>
      cases result with
      | ticks => cases hc
      | bars result =>
          obtain ⟨operation, hop, rfl⟩ := Option.map_eq_some_iff.mp hc
          have hmem := List.mem_of_find?_eq_some hop
          have hid : operation.id = id := by simpa using List.find?_some hop
          obtain ⟨ops, ps, rfl, rfl, hs⟩ := h.orderly
          rw [← hid]
          exact ⟨⟨BarRoute.sentOperation operation :: ops, ps, rfl, rfl, hs.arrive hmem⟩, h.policy⟩
  | ticks s =>
      cases result with
      | bars => cases hc
      | ticks result =>
          obtain ⟨operation, hop, rfl⟩ := Option.map_eq_some_iff.mp hc
          have hmem := List.mem_of_find?_eq_some hop
          have hid : operation.id = id := by simpa using List.find?_some hop
          obtain ⟨ops, ps, rfl, rfl, hs⟩ := h.orderly
          rw [← hid]
          exact ⟨⟨TickRoute.sentOperation operation :: ops, ps, rfl, rfl, hs.arrive hmem⟩, h.policy⟩

/-- Completions that wait for the owner come in any order, and some never come. -/
theorem Sound.of_subperm {r : Route P} {extra extra' sent} (h : r.Sound extra sent) (hsub : extra'.Subperm extra) :
    r.Sound extra' sent := by
  refine ⟨?_, h.policy⟩
  cases r with
  | bars s =>
      obtain ⟨ops, ps, rfl, rfl, hs⟩ := h.orderly
      obtain ⟨l, hperm, hl⟩ := hsub
      obtain ⟨ops', hl', rfl⟩ := List.sublist_map_iff.mp hl
      obtain ⟨ops'', rfl, hperm'⟩ := Sent.perm_map hperm.symm
      have hrest : (s.unfinished ++ ops'').Subperm (s.unfinished ++ ops) :=
        (List.subperm_append_left _).mpr ⟨ops', hperm'.symm, hl'⟩
      exact ⟨ops'', ps, rfl, rfl, hs.sound.of_subperm hrest, hs.fresh, hs.grid⟩
  | ticks s =>
      obtain ⟨ops, ps, rfl, rfl, hs⟩ := h.orderly
      obtain ⟨l, hperm, hl⟩ := hsub
      obtain ⟨ops', hl', rfl⟩ := List.sublist_map_iff.mp hl
      obtain ⟨ops'', rfl, hperm'⟩ := Sent.perm_map hperm.symm
      have hrest : (s.unfinished ++ ops'').Subperm (s.unfinished ++ ops) :=
        (List.subperm_append_left _).mpr ⟨ops', hperm'.symm, hl'⟩
      exact ⟨ops'', ps, rfl, rfl, hs.sound.of_subperm hrest, hs.fresh, hs.fits⟩

theorem operationIds_answered (r : Route P) (id : Nat) :
    (r.answered id).operationIds = r.operationIds.filter (· != id) := by
  cases r with
  | bars s =>
      simp only [answered, operationIds, List.filter_map]
      rfl
  | ticks s =>
      simp only [answered, operationIds, List.filter_map]
      rfl

section

variable [BEq P]

theorem Sound.tick_step {s : TickRoute P} {extra sent} (h : (.ticks s : Route P).Sound extra sent)
    {e : TickRoute.Event P} (hfits : e.Fits) (he : ∀ id result clock, e ≠ .history id result clock) :
    let t : Route P × List (Notice P) := (.ticks (s.step e).1, (s.step e).2.map .ticks)
    t.1.Sound extra (sent ++ (requestsOf t.2).map (·.pending)) ∧ (.ticks s : Route P).Goes t := by
  have hretry := h.no_tick_retry
  obtain ⟨ops, ps, rfl, rfl, hs⟩ := h.orderly
  obtain ⟨hu, hcarries⟩ := hs.step_carries hfits he
  have hgoes : (.ticks s : Route P).Goes (.ticks (s.step e).1, (s.step e).2.map .ticks) :=
    .of_ticks hu hcarries hretry
  exact ⟨h.goes ⟨ops, _, rfl, requestsOf_ticks_pending _ _, hs.step hfits he⟩ hgoes, hgoes⟩

theorem Sound.handle {r : Route P} {extra sent} (h : r.Sound extra sent) {e : RouteEvent P} (hfits : e.Fits) :
    (r.handle e).1.Sound extra (sent ++ (requestsOf (r.handle e).2).map (·.pending)) ∧ r.Goes (r.handle e) := by
  cases r with
  | bars s =>
      cases e with
      | ticks batch => exact ⟨h.stay, .stay _⟩
      | subscribed => exact h.bar_step fun _ _ _ => BarRoute.Event.noConfusion
      | bars => exact h.bar_step fun _ _ _ => BarRoute.Event.noConfusion
      | status => exact h.bar_step fun _ _ _ => BarRoute.Event.noConfusion
      | process => exact h.bar_step fun _ _ _ => BarRoute.Event.noConfusion
      | unsubscribe => exact h.bar_step fun _ _ _ => BarRoute.Event.noConfusion
      | subscriberGone => exact h.bar_step fun _ _ _ => BarRoute.Event.noConfusion
  | ticks s =>
      cases e with
      | bars batch => exact ⟨h.stay, .stay _⟩
      | subscribed replay clock => exact h.tick_step (e := .subscribed replay clock) hfits (by simp)
      | ticks batch => exact h.tick_step (e := .ticks batch) hfits (by simp)
      | status status clock => exact h.tick_step (e := .status status clock) hfits (by simp)
      | process clock => exact h.tick_step (e := .process clock) hfits (by simp)
      | unsubscribe => exact h.tick_step (e := .unsubscribe) trivial (by simp)
      | subscriberGone => exact h.tick_step (e := .subscriberGone) trivial (by simp)

/-- A completion that does not count does nothing. -/
theorem complete_stale {r : Route P} {c : Completion P} (h : r.counts c.sent = false) (clock : RouteClock) :
    r.complete c clock = (r, []) := by
  cases r with
  | bars s =>
      cases c with
      | bars operation result =>
          have hstale : s.current operation = false := h
          simp only [complete, BarRoute.completeContinuity_stale hstale, List.map_nil]
      | ticks => rfl
  | ticks s =>
      cases c with
      | bars => rfl
      | ticks operation result =>
          have hstale : s.current operation = false := h
          simp only [complete, TickRoute.completeContinuity_stale hstale, List.map_nil]

/-- The owner runs a completion. -/
theorem Sound.complete {r : Route P} {pre post : List (Sent Request)} {sent} {c : Completion P}
    (h : r.Sound (pre ++ c.sent :: post) sent) (hfits : c.Fits) (clock : RouteClock) :
    let t := r.complete c clock
    t.1.Sound (pre ++ post) (sent ++ (requestsOf t.2).map (·.pending)) ∧ r.Goes t := by
  cases r with
  | bars s =>
      have hretry := h.no_retry
      obtain ⟨ops, ps, hops, rfl, hs⟩ := h.orderly
      obtain ⟨pre', post', rfl, rfl, hmid⟩ := List.append_eq_map_iff.mp hops
      obtain ⟨o, post', rfl, hc, rfl⟩ := List.map_eq_cons_iff.mp hmid
      cases c with
      | ticks operation result => cases congrArg Sent.pending hc
      | bars operation result =>
          have ho : o = BarRoute.sentOperation operation := by
            cases o
            cases hc
            rfl
          have hs' : s.Orderly (BarRoute.sentOperation operation :: (pre' ++ post')) ps := by
            refine ⟨hs.sound.of_subperm ?_, hs.fresh, hs.grid⟩
            rw [ho]
            exact (List.perm_middle.symm.append_left _).subperm
          obtain ⟨h1, ⟨hu, hcarries⟩, -⟩ := hs'.complete result clock
          have hgoes := Goes.of_bars (P := P) hu hcarries hretry
          exact ⟨h.goes ⟨_, _, List.map_append.symm, requestsOf_bars_pending _ _, h1⟩ hgoes, hgoes⟩
  | ticks s =>
      have hretry := h.no_tick_retry
      obtain ⟨ops, ps, hops, rfl, hs⟩ := h.orderly
      obtain ⟨pre', post', rfl, rfl, hmid⟩ := List.append_eq_map_iff.mp hops
      obtain ⟨o, post', rfl, hc, rfl⟩ := List.map_eq_cons_iff.mp hmid
      cases c with
      | bars operation result => cases congrArg Sent.pending hc
      | ticks operation result =>
          have ho : o = TickRoute.sentOperation operation := by
            cases o
            cases hc
            rfl
          have hs' : s.Orderly (TickRoute.sentOperation operation :: (pre' ++ post')) ps := by
            refine ⟨hs.sound.of_subperm ?_, hs.fresh, hs.fits⟩
            rw [ho]
            exact (List.perm_middle.symm.append_left _).subperm
          obtain ⟨h1, ⟨hu, hcarries⟩, -⟩ := hs'.complete hfits clock
          have hgoes := Goes.of_ticks hu hcarries hretry
          exact ⟨h.goes ⟨_, _, List.map_append.symm, requestsOf_ticks_pending _ _, h1⟩ hgoes, hgoes⟩

end

/-- A recorded completion is one of an operation in flight. -/
theorem completion_id {r : Route P} {id : Nat} {result : HistoryResult P} {c : Completion P}
    (hc : r.completion id result = some c) : c.id = id ∧ id ∈ r.operationIds ∧ (result.Fits → c.Fits) := by
  cases r with
  | bars s =>
      cases result with
      | ticks => cases hc
      | bars result =>
          obtain ⟨operation, hop, rfl⟩ := Option.map_eq_some_iff.mp hc
          have hid : operation.id = id := by simpa using List.find?_some hop
          exact ⟨hid, List.mem_map.mpr ⟨operation, List.mem_of_find?_eq_some hop, hid⟩, fun h => h⟩
  | ticks s =>
      cases result with
      | bars => cases hc
      | ticks result =>
          obtain ⟨operation, hop, rfl⟩ := Option.map_eq_some_iff.mp hc
          have hid : operation.id = id := by simpa using List.find?_some hop
          exact ⟨hid, List.mem_map.mpr ⟨operation, List.mem_of_find?_eq_some hop, hid⟩, fun h => h⟩

/-! ## Completions that come once -/

/-- A route with the completions that wait for the owner, the requests ever sent, and the operations whose
completions have run. -/
structure Kept (r : Route P) (posted : List (Completion P)) (sent : List Request) (ran : List Nat) : Prop where
  sound : r.Sound (posted.map Completion.sent) sent
  once : (ran ++ (r.operationIds ++ posted.map Completion.id)).Nodup
  ran : ∀ id ∈ ran, id < r.next

theorem posted_ids (posted : List (Completion P)) :
    (posted.map Completion.sent).map Sent.id = posted.map Completion.id := by
  rw [List.map_map]
  exact List.map_congr_left fun c _ => c.sent_id

theorem Sound.ids {r : Route P} {posted : List (Completion P)} {sent}
    (h : r.Sound (posted.map Completion.sent) sent) :
    (r.operationIds ++ posted.map Completion.id).Nodup ∧
      ∀ id ∈ r.operationIds ++ posted.map Completion.id, id < r.next := by
  obtain ⟨hn, hlt⟩ := h.nodup
  rw [List.map_append, unfinished_ids, posted_ids] at hn
  refine ⟨hn, fun id hid => ?_⟩
  rw [← unfinished_ids, ← posted_ids, ← List.map_append] at hid
  obtain ⟨o, ho, rfl⟩ := List.mem_map.mp hid
  exact hlt o ho

theorem Goes.operationIds {r : Route P} {t : Route P × List (Notice P)} (h : r.Goes t) :
    t.1.operationIds = r.operationIds ++ (requestsOf t.2).map Sent.id := by
  rw [← unfinished_ids, ← unfinished_ids, h.unfinished, List.map_append]

/-- A step that hands on the completions `posted'` and has run `ran'`. -/
theorem Kept.goes {r : Route P} {posted posted' : List (Completion P)} {sent sent' ran ran'}
    (h : r.Kept posted sent ran) {t : Route P × List (Notice P)} (hg : r.Goes t)
    (hs : t.1.Sound (posted'.map Completion.sent) sent')
    (hperm : (ran' ++ posted'.map Completion.id).Perm (ran ++ posted.map Completion.id)) :
    t.1.Kept posted' sent' ran' := by
  have hold : ∀ id ∈ ran ++ posted.map Completion.id, id < r.next := by
    intro id hid
    rcases List.mem_append.mp hid with hid | hid
    · exact h.ran id hid
    · exact h.sound.ids.2 id (List.mem_append_right _ hid)
  refine ⟨hs, ?_, fun id hid => ?_⟩
  · have hnew := hs.ids.1
    rw [hg.operationIds] at hnew ⊢
    have hall : (ran' ++ (r.operationIds ++ (requestsOf t.2).map Sent.id ++ posted'.map Completion.id)).Perm
        (ran ++ (r.operationIds ++ posted.map Completion.id) ++ (requestsOf t.2).map Sent.id) := by
      rw [List.append_assoc r.operationIds]
      calc
        List.Perm _ (r.operationIds ++ (ran' ++ ((requestsOf t.2).map Sent.id ++ posted'.map Completion.id))) :=
          List.perm_append_comm_assoc _ _ _
        List.Perm _ (r.operationIds ++ (ran' ++ (posted'.map Completion.id ++ (requestsOf t.2).map Sent.id))) :=
          (List.perm_append_comm.append_left _).append_left _
        List.Perm _ (r.operationIds ++ (ran ++ posted.map Completion.id ++ (requestsOf t.2).map Sent.id)) := by
          rw [← List.append_assoc ran']
          exact (hperm.append_right _).append_left _
        List.Perm _ (ran ++ (r.operationIds ++ posted.map Completion.id) ++ (requestsOf t.2).map Sent.id) := by
          rw [List.append_assoc ran, List.append_assoc ran, List.append_assoc r.operationIds]
          exact List.perm_append_comm_assoc _ _ _
    rw [hall.nodup_iff, List.nodup_append]
    rw [List.append_assoc, List.nodup_append] at hnew
    refine ⟨h.once, (List.nodup_append.mp hnew.2.1).1, fun a ha b hb heq => ?_⟩
    obtain ⟨o, ho, rfl⟩ := List.mem_map.mp hb
    have hlt : a < r.next := by
      rcases List.mem_append.mp ha with ha | ha
      · exact h.ran a ha
      · exact h.sound.ids.2 a ha
    have hle := hg.ids o ho
    omega
  · exact (hold id (hperm.subset (List.mem_append_left _ hid))).trans_le hg.counted

theorem Kept.handle [BEq P] {r : Route P} {posted sent ran} (h : r.Kept posted sent ran) {e : RouteEvent P}
    (hfits : e.Fits) :
    (r.handle e).1.Kept posted (sent ++ (requestsOf (r.handle e).2).map (·.pending)) ran ∧
      r.Goes (r.handle e) := by
  obtain ⟨hs, hg⟩ := h.sound.handle hfits
  exact ⟨h.goes hg hs (.refl _), hg⟩

theorem Kept.complete [BEq P] {r : Route P} {pre post : List (Completion P)} {c : Completion P} {sent ran}
    (h : r.Kept (pre ++ c :: post) sent ran) (hfits : c.Fits) (clock : RouteClock) :
    (r.complete c clock).1.Kept (pre ++ post) (sent ++ (requestsOf (r.complete c clock).2).map (·.pending))
        (ran ++ [c.id]) ∧
      r.Goes (r.complete c clock) := by
  have hposted := h.sound
  rw [List.map_append, List.map_cons] at hposted
  obtain ⟨hs, hg⟩ := hposted.complete hfits clock
  rw [← List.map_append] at hs
  refine ⟨h.goes hg hs ?_, hg⟩
  rw [List.append_assoc, List.singleton_append, List.map_append, List.map_append, List.map_cons]
  exact List.perm_middle.symm.append_left _

/-- The first completion of an operation leaves the provider and waits for the owner, unless the dispatcher refuses
it. -/
theorem Kept.record {r : Route P} {posted sent ran} (h : r.Kept posted sent ran) {id : Nat}
    {result : HistoryResult P} {c : Completion P} (hc : r.completion id result = some c) (accepted : Bool) :
    (r.answered id).Kept (if accepted then posted ++ [c] else posted) sent ran ∧
      (r.answered id).operationIds.length + 1 = r.operationIds.length := by
  obtain ⟨rfl, hmem, -⟩ := completion_id hc
  have hids := h.sound.ids.1
  have herase : (r.answered c.id).operationIds = r.operationIds.erase c.id := by
    rw [operationIds_answered]
    exact ((List.nodup_append.mp hids).1.erase_eq_filter _).symm
  have hsub : ((if accepted then posted ++ [c] else posted).map Completion.sent).Subperm
      (c.sent :: posted.map Completion.sent) := by
    split
    · rw [List.map_append]
      exact (List.perm_append_singleton c.sent _).subperm
    · exact (List.sublist_cons_self _ _).subperm
  have hnext : (r.answered c.id).next = r.next := by
    cases r <;> rfl
  refine ⟨⟨(h.sound.record hc).of_subperm hsub, ?_, fun id hid => hnext ▸ h.ran id hid⟩, ?_⟩
  · obtain ⟨l, hperm, hl⟩ : (ran ++ ((r.answered c.id).operationIds ++
        (if accepted then posted ++ [c] else posted).map Completion.id)).Subperm
          (ran ++ (r.operationIds ++ posted.map Completion.id)) := by
      rw [herase]
      refine (List.subperm_append_left _).mpr ?_
      split
      · refine List.Perm.subperm ?_
        calc
          List.Perm _ (r.operationIds.erase c.id ++ c.id :: posted.map Completion.id) := by
            rw [List.map_append]
            exact List.perm_append_comm.append_left _
          List.Perm _ (c.id :: r.operationIds.erase c.id ++ posted.map Completion.id) := List.perm_middle
          List.Perm _ (r.operationIds ++ posted.map Completion.id) :=
            (List.perm_cons_erase hmem).symm.append_right _
      · exact (List.erase_sublist.append_right _).subperm
    exact hperm.nodup_iff.mp (h.once.sublist hl)
  · rw [herase, List.length_erase_of_mem hmem]
    have hpos := List.length_pos_of_mem hmem
    omega

end Route

/-! ## The router -/

/-- The requests for the route `i` among what the router sends. -/
def sentTo (i : Nat) (ns : List (Nat × Notice P)) : List Request :=
  (requestsOf ((ns.filter (·.1 == i)).map (·.2))).map (·.pending)

theorem sentTo_map (i j : Nat) (ns : List (Notice P)) :
    sentTo j (ns.map (i, ·)) = if i = j then (requestsOf ns).map (·.pending) else [] := by
  unfold sentTo
  rw [List.filter_map, List.map_map]
  split
  · rename_i h
    rw [List.filter_eq_self.mpr fun n _ => by simp [h]]
    exact congrArg _ (congrArg requestsOf (List.map_id ns))
  · rename_i h
    rw [List.filter_eq_nil_iff.mpr fun n _ => by simp [h]]
    rfl

theorem postedFor_append (posted posted' : List (Nat × Completion P)) (i : Nat) :
    postedFor (posted ++ posted') i = postedFor posted i ++ postedFor posted' i := by
  rw [postedFor, List.filter_append, List.map_append]
  rfl

theorem postedFor_cons_self (i : Nat) (c : Completion P) (posted : List (Nat × Completion P)) :
    postedFor ((i, c) :: posted) i = c :: postedFor posted i := by
  rw [postedFor, List.filter_cons_of_pos (by simp)]
  rfl

theorem postedFor_cons_ne {i j : Nat} (h : i ≠ j) (c : Completion P) (posted : List (Nat × Completion P)) :
    postedFor ((i, c) :: posted) j = postedFor posted j := by
  rw [postedFor, List.filter_cons_of_neg (by simpa using h)]
  rfl

theorem sum_set {l : List Nat} {i a : Nat} (h : l[i]? = some a) (b : Nat) :
    (l.set i b).sum + a = l.sum + b := by
  induction l generalizing i with
  | nil => cases h
  | cons x l ih =>
      cases i with
      | zero =>
          cases h
          simp only [List.set_cons_zero, List.sum_cons]
          omega
      | succ i =>
          have hs := ih (i := i) h
          simp only [List.set_cons_succ, List.sum_cons]
          omega

namespace Router

def Event.Fits : Event P → Prop
  | .route _ e => e.Fits
  | .completed _ _ result _ => result.Fits
  | .subscribeBars .. | .subscribeTicks .. | .run .. => True

/-- The operations of the route `i` whose completion a step runs. -/
def ranBy (r : Router P) (e : Event P) (i : Nat) : List Nat :=
  match e with
  | .run k _ =>
      match r.posted[k]? with
      | some (j, c) => if j = i then [c.id] else []
      | none => []
  | _ => []

/-- Every route is kept with its completions that wait, the counter counts the operations that the provider has not
completed, and routes that do not exist yet have sent nothing. -/
structure Kept (r : Router P) (sent : Nat → List Request) (ran : Nat → List Nat) : Prop where
  routes : ∀ i (route : Route P), r.routes[i]? = some route → route.Kept (postedFor r.posted i) (sent i) (ran i)
  posted : ∀ task ∈ r.posted, task.1 < r.routes.length ∧ task.2.Fits
  counter : r.operationsInFlight = (r.routes.map (·.operationIds.length)).sum
  fresh : ∀ i, r.routes.length ≤ i → sent i = [] ∧ ran i = []

/-- A step that sends nothing. -/
theorem Kept.silent {r : Router P} {sent ran} (h : r.Kept sent ran) :
    r.Kept (fun i => sent i ++ sentTo i ([] : List (Nat × Notice P))) ran := by
  have hsent : (fun i => sent i ++ sentTo i ([] : List (Nat × Notice P))) = sent :=
    funext fun i => List.append_nil _
  rwa [hsent]

/-- A step that runs no completion. -/
theorem Kept.quiet {r : Router P} {sent ran} (h : r.Kept sent ran) {ran' : Nat → List Nat}
    (hran : ∀ i, ran' i = []) : r.Kept sent (fun i => ran i ++ ran' i) := by
  have hsame : (fun i => ran i ++ ran' i) = ran := by
    funext i
    rw [hran, List.append_nil]
  rwa [hsame]

/-- The route `i` handles something while all others are kept. -/
theorem Kept.sends {r : Router P} {sent : Nat → List Request} {ran : Nat → List Nat} {i : Nat} {route : Route P} (hroute : r.routes[i]? = some route)
    {t : Route P × List (Notice P)} (hg : route.Goes t)
    (hi : t.1.Kept (postedFor r.posted i) (sent i ++ (requestsOf t.2).map (·.pending)) (ran i))
    (hother : ∀ j (s : Route P), j ≠ i → r.routes[j]? = some s → s.Kept (postedFor r.posted j) (sent j) (ran j))
    (hposted : ∀ task ∈ r.posted, task.1 < r.routes.length ∧ task.2.Fits)
    (hcounter : r.operationsInFlight = (r.routes.map (·.operationIds.length)).sum)
    (hfresh : ∀ i, r.routes.length ≤ i → sent i = [] ∧ ran i = []) :
    (r.sends i t).1.Kept (fun j => sent j ++ sentTo j (r.sends i t).2) ran := by
  have hlt : i < r.routes.length := (List.getElem?_eq_some_iff.mp hroute).1
  refine ⟨fun j s hj => ?_, fun task htask => ?_, ?_, fun j hj => ?_⟩
  · change (r.routes.set i t.1)[j]? = some s at hj
    change s.Kept (postedFor r.posted j) (sent j ++ sentTo j (t.2.map (i, ·))) (ran j)
    rw [sentTo_map]
    by_cases hij : i = j
    · subst hij
      rw [List.getElem?_set_self hlt] at hj
      cases hj
      rw [if_pos rfl]
      exact hi
    · rw [List.getElem?_set_ne hij] at hj
      rw [if_neg hij, List.append_nil]
      exact hother j s (Ne.symm hij) hj
  · obtain ⟨h1, h2⟩ := hposted task htask
    exact ⟨h1.trans_eq (List.length_set ..).symm, h2⟩
  · change r.operationsInFlight + t.2.countP Notice.isRequest =
      ((r.routes.set i t.1).map (·.operationIds.length)).sum
    have hat : (r.routes.map (·.operationIds.length))[i]? = some route.operationIds.length := by
      rw [List.getElem?_map, hroute]
      rfl
    have hsum := sum_set hat t.1.operationIds.length
    rw [List.map_set, countP_isRequest, hcounter]
    rw [hg.operationIds, List.length_append, List.length_map] at hsum ⊢
    omega
  · have hj' : r.routes.length ≤ j := by
      change (r.routes.set i t.1).length ≤ j at hj
      rwa [List.length_set] at hj
    obtain ⟨h1, h2⟩ := hfresh j hj'
    refine ⟨?_, h2⟩
    change sent j ++ sentTo j (t.2.map (i, ·)) = []
    rw [h1, sentTo_map, if_neg (by omega)]
    rfl

/-- A route is added; it has sent nothing. -/
theorem Kept.subscribe {r : Router P} {sent ran} (h : r.Kept sent ran) {route : Route P}
    (hroute : route.Kept [] [] []) (hids : route.operationIds = []) :
    ({ r with routes := r.routes ++ [route] } : Router P).Kept sent ran := by
  refine ⟨fun i s hs => ?_, fun task ht => ?_, ?_, fun i hi => ?_⟩
  · by_cases hlt : i < r.routes.length
    · rw [List.getElem?_append_left hlt] at hs
      exact h.routes i s hs
    · have hle : r.routes.length ≤ i := not_lt.mp hlt
      obtain ⟨h1, h2⟩ := h.fresh i hle
      have hnone : postedFor r.posted i = [] := by
        have hfilter : r.posted.filter (·.1 == i) = [] := by
          refine List.filter_eq_nil_iff.mpr fun task ht => ?_
          have hlt := (h.posted task ht).1
          simp only [beq_iff_eq]
          omega
        rw [postedFor, hfilter]
        rfl
      have hs' : s = route := by
        rw [List.getElem?_append_right hle] at hs
        exact List.mem_singleton.mp (List.mem_of_getElem? hs)
      change s.Kept (postedFor r.posted i) (sent i) (ran i)
      rw [hs', h1, h2, hnone]
      exact hroute
  · obtain ⟨h1, h2⟩ := h.posted task ht
    exact ⟨h1.trans_le (by rw [List.length_append]; exact Nat.le_add_right _ _), h2⟩
  · change r.operationsInFlight = _
    rw [List.map_append, List.sum_append, h.counter, List.map_singleton, hids]
    rfl
  · refine h.fresh i (Nat.le_trans ?_ hi)
    rw [List.length_append]
    exact Nat.le_add_right _ _

theorem Kept.record {r : Router P} {sent ran} (h : r.Kept sent ran) (i id : Nat) {result : HistoryResult P}
    (hresult : result.Fits) (accepted : Bool) : (r.record i id result accepted).Kept sent ran := by
  unfold Router.record
  cases hroute : r.routes[i]? with
  | none => exact h
  | some route =>
      dsimp only
      cases hc : route.completion id result with
      | none => exact h
      | some c =>
          dsimp only
          obtain ⟨hk, hlen⟩ := (h.routes i route hroute).record hc accepted
          have hlt : i < r.routes.length := (List.getElem?_eq_some_iff.mp hroute).1
          refine ⟨fun j s hs => ?_, fun task ht => ?_, ?_, fun j hj => ?_⟩
          · change (r.routes.set i (route.answered id))[j]? = some s at hs
            by_cases hij : i = j
            · subst hij
              rw [List.getElem?_set_self hlt] at hs
              cases hs
              cases accepted with
              | true =>
                  rw [if_pos rfl, postedFor_append, postedFor_cons_self]
                  exact hk
              | false => exact hk
            · rw [List.getElem?_set_ne hij] at hs
              cases accepted with
              | true =>
                  rw [if_pos rfl, postedFor_append, postedFor_cons_ne hij]
                  exact (List.append_nil (postedFor r.posted j)).symm ▸ h.routes j s hs
              | false => exact h.routes j s hs
          · have htask : task ∈ r.posted ∨ task = (i, c) := by
              dsimp only at ht
              split at ht
              · exact (List.mem_append.mp ht).imp_right List.mem_singleton.mp
              · exact .inl ht
            change task.1 < (r.routes.set i (route.answered id)).length ∧ _
            rw [List.length_set]
            rcases htask with ht | rfl
            · exact h.posted task ht
            · exact ⟨hlt, (Route.completion_id hc).2.2 hresult⟩
          · have hat : (r.routes.map (·.operationIds.length))[i]? = some route.operationIds.length := by
              rw [List.getElem?_map, hroute]
              rfl
            have hsum := sum_set hat (route.answered id).operationIds.length
            change r.operationsInFlight - 1 =
              ((r.routes.set i (route.answered id)).map (·.operationIds.length)).sum
            rw [List.map_set, h.counter]
            omega
          · refine h.fresh j ?_
            change (r.routes.set i (route.answered id)).length ≤ j at hj
            rwa [List.length_set] at hj

theorem record_routes (r : Router P) (i id : Nat) (result : HistoryResult P) (accepted : Bool) (j : Nat) :
    (r.record i id result accepted).routes[j]? = r.routes[j]? ∨
      (r.record i id result accepted).routes[j]? = r.routes[j]?.map (·.answered id) := by
  unfold record
  cases hroute : r.routes[i]? with
  | none => exact .inl rfl
  | some route =>
      dsimp only
      cases route.completion id result with
      | none => exact .inl rfl
      | some c =>
          change (r.routes.set i (route.answered id))[j]? = _ ∨ (r.routes.set i (route.answered id))[j]? = _
          by_cases hij : i = j
          · subst hij
            rw [List.getElem?_set_self (List.getElem?_eq_some_iff.mp hroute).1, hroute]
            exact .inr rfl
          · rw [List.getElem?_set_ne hij]
            exact .inl rfl

theorem record_repeated (r : Router P) {i id : Nat}
    (h : ∀ route, r.routes[i]? = some route → id ∉ route.operationIds) (result : HistoryResult P)
    (accepted : Bool) : r.record i id result accepted = r := by
  unfold record
  cases hroute : r.routes[i]? with
  | none => rfl
  | some route =>
      dsimp only
      cases hc : route.completion id result with
      | none => rfl
      | some c => exact absurd (Route.completion_id hc).2.1 (h route hroute)

variable [BEq P]

theorem runTask_stale {r : Router P} {k i : Nat} {c : Completion P} {route : Route P}
    (htask : r.posted[k]? = some (i, c)) (hroute : r.routes[i]? = some route)
    (hstale : route.counts c.sent = false) (clock : RouteClock) :
    (r.runTask k clock).1.routes = r.routes ∧ (r.runTask k clock).2 = [] := by
  unfold runTask
  rw [htask]
  dsimp only
  rw [hroute]
  dsimp only
  rw [Route.complete_stale hstale]
  refine ⟨?_, rfl⟩
  obtain ⟨hlt, rfl⟩ := List.getElem?_eq_some_iff.mp hroute
  exact List.set_getElem_self hlt

theorem Kept.runTask {r : Router P} {sent ran} (h : r.Kept sent ran) (k : Nat) (clock : RouteClock) :
    (r.runTask k clock).1.Kept (fun i => sent i ++ sentTo i (r.runTask k clock).2)
      (fun i => ran i ++ ranBy r (.run k clock) i) := by
  unfold Router.runTask
  cases htask : r.posted[k]? with
  | none =>
      have hran : (fun i => ran i ++ ranBy r (.run k clock) i) = ran := by
        funext i
        simp only [ranBy, htask, List.append_nil]
      rw [hran]
      exact h.silent
  | some task =>
      obtain ⟨i, c⟩ := task
      dsimp only
      obtain ⟨hk, hget⟩ := List.getElem?_eq_some_iff.mp htask
      have hmem : (i, c) ∈ r.posted := hget ▸ List.getElem_mem hk
      obtain ⟨hlt, hfits⟩ := h.posted (i, c) hmem
      have hroute : r.routes[i]? = some r.routes[i] := List.getElem?_eq_getElem hlt
      rw [hroute]
      dsimp only
      have hsplit : r.posted = r.posted.take k ++ (i, c) :: r.posted.drop (k + 1) := by
        rw [← hget, List.cons_getElem_drop_succ, List.take_append_drop]
      have herase : r.posted.eraseIdx k = r.posted.take k ++ r.posted.drop (k + 1) :=
        List.eraseIdx_eq_take_drop_succ ..
      have hran : ∀ j, ranBy r (.run k clock) j = if i = j then [c.id] else [] := fun j => by
        simp only [ranBy, htask]
      have hi := h.routes i _ hroute
      rw [hsplit, postedFor_append, postedFor_cons_self] at hi
      obtain ⟨hkept, hg⟩ := hi.complete hfits clock
      refine Kept.sends (r := { r with posted := r.posted.eraseIdx k }) hroute hg ?_ (fun j s hj hs => ?_)
        (fun task ht => h.posted task (List.mem_of_mem_eraseIdx ht)) h.counter (fun j hj => ?_)
      · rw [hran, if_pos rfl]
        change Route.Kept _ (postedFor (r.posted.eraseIdx k) i) _ _
        rw [herase, postedFor_append]
        exact hkept
      · rw [hran, if_neg (Ne.symm hj), List.append_nil]
        change Route.Kept _ (postedFor (r.posted.eraseIdx k) j) _ _
        have hj' := h.routes j s hs
        rw [hsplit, postedFor_append, postedFor_cons_ne (Ne.symm hj)] at hj'
        rw [herase, postedFor_append]
        exact hj'
      · obtain ⟨h1, h2⟩ := h.fresh j hj
        have hne : i ≠ j := by
          have hle : r.routes.length ≤ j := hj
          omega
        rw [hran, if_neg hne, h1, h2]
        exact ⟨rfl, rfl⟩

omit [BEq P] in
theorem create_bars (symbol : String) {timeframe : Nat} (htf : 0 < timeframe) {options : ContinuityOptions}
    (hvalid : options.valid = true) : (Route.bars (.create symbol timeframe options) : Route P).Kept [] [] [] := by
  refine ⟨⟨⟨[], [], rfl, rfl, BarRoute.create_orderly symbol htf options⟩, ?_⟩, List.nodup_nil,
    fun id hid => by cases hid⟩
  unfold ContinuityOptions.valid at hvalid
  cases hmode : options.mode with
  | liveOnly =>
      right
      simp only [Route.enabled, BarRoute.create, hmode]
      exact ⟨rfl, trivial⟩
  | prefill =>
      simp only [hmode, RetryPolicy.valid, Bool.and_eq_true, decide_eq_true_eq] at hvalid
      exact .inl hvalid.2.1
  | prefillAndRecover =>
      simp only [hmode, RetryPolicy.valid, Bool.and_eq_true, decide_eq_true_eq] at hvalid
      exact .inl hvalid.1

omit [BEq P] in
theorem create_ticks (symbol : String) {options : TickContinuityOptions} (hvalid : options.valid = true) :
    (Route.ticks (.create symbol options) : Route P).Kept [] [] [] := by
  refine ⟨⟨⟨[], [], rfl, rfl, TickRoute.create_orderly symbol options⟩, ?_⟩, List.nodup_nil,
    fun id hid => by cases hid⟩
  simp only [TickContinuityOptions.valid, RetryPolicy.valid, Bool.and_eq_true, decide_eq_true_eq] at hvalid
  exact .inl hvalid.1.1

theorem Kept.step {r : Router P} {sent ran} (h : r.Kept sent ran) {e : Event P} (hfits : e.Fits) :
    (r.step e).1.Kept (fun i => sent i ++ sentTo i (r.step e).2) (fun i => ran i ++ ranBy r e i) := by
  cases e with
  | subscribeBars symbol timeframe options =>
      simp only [Router.step]
      split
      · rename_i hvalid
        simp only [Bool.and_eq_true, decide_eq_true_eq] at hvalid
        exact (h.subscribe (create_bars symbol hvalid.1.2 hvalid.2) rfl).silent.quiet fun _ => rfl
      · exact h.silent.quiet fun _ => rfl
  | subscribeTicks symbol options =>
      simp only [Router.step]
      split
      · rename_i hvalid
        simp only [Bool.and_eq_true] at hvalid
        exact (h.subscribe (create_ticks symbol hvalid.2) rfl).silent.quiet fun _ => rfl
      · exact h.silent.quiet fun _ => rfl
  | route i e =>
      simp only [Router.step]
      cases hroute : r.routes[i]? with
      | none => exact h.silent.quiet fun _ => rfl
      | some route =>
          obtain ⟨hkept, hg⟩ := (h.routes i route hroute).handle hfits
          exact (Kept.sends hroute hg hkept (fun j s _ hs => h.routes j s hs) h.posted h.counter h.fresh).quiet
            fun _ => rfl
  | completed i id result accepted => exact (h.record i id hfits accepted).silent.quiet fun _ => rfl
  | run k clock => exact h.runTask k clock

end Router

end OptionX.MarketData
