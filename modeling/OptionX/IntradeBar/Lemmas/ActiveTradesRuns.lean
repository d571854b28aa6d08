import OptionX.IntradeBar.Lemmas.ActiveTradesSync

/-!
# Runs of the synchronisation

Which requests a step sends and when it publishes a snapshot; which steps give up all work, and which ask for new.
-/

namespace OptionX.IntradeBar

namespace ActiveTradesSyncManager

variable {s : ActiveTradesSyncManager} {e : Event}

/-! ## Requests and snapshots -/

/-- The step invalidates the account context. -/
def invalidates (s : ActiveTradesSyncManager) (e : Event) : Bool :=
  match e.action with
  | .disconnectRequest => true
  | .accountInfoUpdate status =>
      status = .accountTypeChanged || status = .currencyChanged || status = .disconnected || status = .failedToConnect
  | .authData authData => settingsDiffer authData s.accountInfo
  | .account _ | .restartAuth | .refreshRequest _ | .process | .reply _ _ | .shutdown => false

theorem processTasks_frame (nowMs : Int) :
    (s.processTasks nowMs).1.accountContextGeneration = s.accountContextGeneration := runTasks_frame.1

theorem onReply_frame {nowMs : Int} {request : SnapshotRequest} {closeTimesMs : Option (List Int)} :
    (s.onReply nowMs request closeTimesMs).1.accountContextGeneration = s.accountContextGeneration ∧
      (s.onReply nowMs request closeTimesMs).1.requests = s.requests ∧
      (s.onReply nowMs request closeTimesMs).1.syncGeneration = s.syncGeneration ∧
      ((s.onReply nowMs request closeTimesMs).1.activeSyncGeneration = s.activeSyncGeneration ∨
        (s.onReply nowMs request closeTimesMs).1.activeSyncGeneration = 0) ∧
      (s.onReply nowMs request closeTimesMs).2.filterMap Notice.request? = [] := by
  unfold onReply
  split
  · simp
  split
  · simp [endRequest]
  split
  · simp [endRequest]
  cases closeTimesMs with
  | none =>
      obtain ⟨-, -, hgeneration, hactive, hcontext, hrequests, -⟩ :=
        @scheduleSync_frame nowMs "snapshot-failed" s.endRequest
      exact ⟨hcontext, hrequests, hgeneration, .inr hactive, rfl⟩
  | some closeTimesMs => exact ⟨rfl, rfl, rfl, .inr rfl, rfl⟩

theorem onAuthData_eq (nowMs : Int) (authData : AuthData) :
    s.onAuthData nowMs authData =
      if settingsDiffer authData s.accountInfo then
        (s.configure authData).invalidateAccountContext nowMs "auth-data-account-context-change"
      else (s.configure authData, []) := rfl

@[simp] theorem configure_context (authData : AuthData) :
    (s.configure authData).accountContextGeneration = s.accountContextGeneration := rfl

theorem step_context (h : Sound s.tasks s) (e : Event) :
    (s.step e).1.accountContextGeneration = s.accountContextGeneration + if s.invalidates e then 1 else 0 := by
  obtain ⟨nowMs, action⟩ := e
  cases action with
  | account accountInfo => simp [step, invalidates]
  | authData authData =>
      simp only [step, onAuthData_eq, invalidates]
      split
      · next hd => simp [invalidateAccountContext_eq (h.configure authData), hd]
      · next hd => simp [hd]
  | restartAuth => simp [step, invalidates]
  | disconnectRequest => simp [step, invalidates, invalidateAccountContext_eq h]
  | accountInfoUpdate status =>
      cases status <;> simp [step, onAccountInfoUpdate, invalidates, invalidateAccountContext_eq h]
  | refreshRequest reason => simp [step, invalidates, scheduleSync_frame]
  | process => simp [step, invalidates, processTasks_frame]
  | reply request closeTimesMs =>
      simp only [step, invalidates, Bool.false_eq_true, if_false, Nat.add_zero]
      split
      · rfl
      · exact onReply_frame.1
  | shutdown => simp [step, invalidates, (shutdown_eq h).1]

theorem invalidate_sends {nowMs : Int} {reason : String} (h : Sound s.tasks s) :
    Sends s (s.invalidateAccountContext nowMs reason).1 (s.invalidateAccountContext nowMs reason).2 := by
  rw [invalidateAccountContext_eq h]
  exact ⟨by simp [Notice.request?], by simp [Notice.request?], .inr (.inl rfl), Nat.le_succ _⟩

theorem step_sends (h : Sound s.tasks s) (e : Event) : Sends s (s.step e).1 (s.step e).2 := by
  obtain ⟨nowMs, action⟩ := e
  cases action with
  | account accountInfo => exact ⟨by simp [step], by simp [step], .inl rfl, Nat.le_refl _⟩
  | authData authData =>
      simp only [step, onAuthData_eq]
      split
      · have hs := @invalidate_sends (s.configure authData) nowMs "auth-data-account-context-change" (h.configure authData)
        exact ⟨hs.requests, hs.context, hs.active, hs.generation⟩
      · exact ⟨by simp [configure], by simp, .inl rfl, Nat.le_refl _⟩
  | restartAuth => exact requestSync_sends
  | disconnectRequest => exact invalidate_sends h
  | accountInfoUpdate status =>
      cases status with
      | connected => exact requestSync_sends
      | accountTypeChanged | currencyChanged =>
          exact (invalidate_sends h).trans requestSync_sends requestSync_context
      | disconnected | failedToConnect => exact invalidate_sends h
      | unknown | balanceUpdated | openTradesChanged | connecting => exact .refl
  | refreshRequest reason => exact scheduleSync_sends
  | process =>
      have hs := @runTasks_sends nowMs (s.tasks ++ s.pendingTasks) { s with pendingTasks := [], tasks := [] }
      exact ⟨hs.requests, hs.context, hs.active, hs.generation⟩
  | reply request closeTimesMs =>
      simp only [step]
      split
      · exact .refl
      · obtain ⟨-, hrequests, hgeneration, hactive, hnone⟩ := @onReply_frame s nowMs _ closeTimesMs
        exact ⟨by rw [hnone, List.append_nil]; exact hrequests, by rw [hnone]; simp, hactive.imp_right .inl,
          hgeneration.ge⟩
  | shutdown =>
      simp only [step, (shutdown_eq h).1, (shutdown_eq h).2]
      exact ⟨by simp, by simp, .inr (.inl rfl), Nat.le_succ _⟩

/-- The request whose reply the step publishes as a snapshot. -/
def published (st : Lib.Step ActiveTradesSyncManager Event (List Notice)) : Option Nat :=
  match st.event.action with
  | .reply request _ => if st.answer.any Notice.isSnapshot then some request else none
  | .account _ | .authData _ | .restartAuth | .disconnectRequest | .accountInfoUpdate _ | .refreshRequest _ | .process
  | .shutdown => none

/-- A snapshot is published for a reply to the current request, on a connected account of the request's identity. -/
theorem step_snapshot (h : Sound s.tasks s) (hsnapshot : (s.step e).2.any Notice.isSnapshot = true) :
    ∃ n closeTimesMs request, e.action = .reply n closeTimesMs ∧ s.requests[n]? = some request ∧
      request.generation = s.activeSyncGeneration ∧ s.accountInfo.connect = true ∧
      s.isAccountContextCurrent request.accountContext = true ∧ (s.step e).1.activeSyncGeneration = 0 := by
  obtain ⟨nowMs, action⟩ := e
  have hrequest : ∀ reason (s : ActiveTradesSyncManager), (s.requestSync nowMs reason).2.any Notice.isSnapshot = false :=
    fun reason s => List.any_eq_false.mpr fun n hn => by simp [requestSync_noSnapshot n hn]
  have hinvalidate : ∀ reason, (s.invalidateAccountContext nowMs reason).2.any Notice.isSnapshot = false :=
    fun reason => by simp [invalidateAccountContext_eq h, Notice.isSnapshot]
  cases action with
  | account accountInfo => simp [step] at hsnapshot
  | authData authData =>
      simp only [step, onAuthData_eq] at hsnapshot
      split at hsnapshot
      · simp [invalidateAccountContext_eq (h.configure authData), Notice.isSnapshot] at hsnapshot
      · simp at hsnapshot
  | restartAuth => simp [step, hrequest] at hsnapshot
  | disconnectRequest => simp [step, hinvalidate] at hsnapshot
  | accountInfoUpdate status =>
      cases status <;>
        simp [step, onAccountInfoUpdate, hrequest, hinvalidate, List.any_append] at hsnapshot
  | refreshRequest reason => simp [step] at hsnapshot
  | process =>
      have : (s.processTasks nowMs).2.any Notice.isSnapshot = false :=
        List.any_eq_false.mpr fun n hn => by simp [runTasks_noSnapshot n hn]
      simp [step, this] at hsnapshot
  | reply n closeTimesMs =>
      simp only [step] at hsnapshot ⊢
      split at hsnapshot
      · cases hsnapshot
      · next request hn =>
        refine ⟨n, closeTimesMs, request, rfl, hn, ?_⟩
        unfold onReply at hsnapshot ⊢
        split at hsnapshot
        · cases hsnapshot
        split at hsnapshot
        · cases hsnapshot
        split at hsnapshot
        · cases hsnapshot
        next hg hc hctx =>
        cases closeTimesMs with
        | none => cases hsnapshot
        | some closeTimesMs => simp_all [endRequest]
  | shutdown => simp [step, (shutdown_eq h).2] at hsnapshot

/-! ## Giving up and asking again -/

def Notice.ready? : Notice → Option Bool
  | .availability ready _ => some ready
  | .snapshot _ _ _ => some true
  | .requested _ => none

/-- What the last availability or snapshot event has said. -/
def lastReady (ns : List Notice) : Option Bool := (ns.filterMap Notice.ready?).getLast?

theorem lastReady_append (ns ns' : List Notice) : lastReady (ns ++ ns') = (lastReady ns').or (lastReady ns) := by
  simp [lastReady, List.getLast?_append]

/-- No request is current and no refresh waits. -/
def Idle (s : ActiveTradesSyncManager) : Prop := s.activeSyncGeneration = 0 ∧ s.tasks ++ s.pendingTasks = []

/-- The step drops all work: an invalidation that no request follows, the reply to the current request where the account
is disconnected or is not the one of the request, a due refresh where it is disconnected, or the shutdown. -/
def GivesUp (s : ActiveTradesSyncManager) (e : Event) : Prop :=
  match e.action with
  | .disconnectRequest | .shutdown => True
  | .authData authData => settingsDiffer authData s.accountInfo = true
  | .accountInfoUpdate status =>
      status = .disconnected ∨ status = .failedToConnect ∨
        (status = .accountTypeChanged ∨ status = .currencyChanged) ∧ s.accountInfo.connect = false
  | .reply n _ => ∃ request, s.requests[n]? = some request ∧ request.generation = s.activeSyncGeneration ∧
      (s.accountInfo.connect = false ∨ s.isAccountContextCurrent request.accountContext = false)
  | .process => s.accountInfo.connect = false ∧ ∃ t ∈ s.tasks ++ s.pendingTasks, t.task.runs e.nowMs = true
  | .account _ | .restartAuth | .refreshRequest _ => False

/-- The step asks for a request or a refresh, on a connected account. -/
def Asks (s : ActiveTradesSyncManager) (e : Event) : Prop :=
  s.accountInfo.connect = true ∧
    match e.action with
    | .restartAuth | .refreshRequest _ => True
    | .accountInfoUpdate status => status = .connected ∨ status = .accountTypeChanged ∨ status = .currencyChanged
    | .account _ | .authData _ | .disconnectRequest | .process | .reply _ _ | .shutdown => False

theorem requestSync_idle {nowMs : Int} {reason : String} (h : Sound s.tasks s)
    (hidle : (s.requestSync nowMs reason).1.Idle) :
    s.accountInfo.connect = false ∧ s.requestSync nowMs reason = (s, []) := by
  cases hc : s.accountInfo.connect with
  | false => exact ⟨rfl, requestSync_disconnected hc⟩
  | true => exact absurd hidle.1 (requestSync_current h hc)

theorem scheduleSync_idle {nowMs : Int} {reason : String} (h : Sound s.tasks s)
    (hidle : (s.scheduleSync nowMs reason).Idle) :
    s.accountInfo.connect = false ∧ s.scheduleSync nowMs reason = s := by
  cases hc : s.accountInfo.connect with
  | false => exact ⟨rfl, scheduleSync_disconnected hc⟩
  | true =>
      have htasks := (@scheduleSync_frame nowMs reason s).2.2.2.2.2.2
      have hwaits := htasks ▸ hidle.2
      exact absurd hwaits (scheduleSync_waits h hc)

theorem processTasks_idle {nowMs : Int} (h : Sound s.tasks s) (hidle : (s.processTasks nowMs).1.Idle) :
    (s.accountInfo.connect = false ∧ ∃ t ∈ s.tasks ++ s.pendingTasks, t.task.runs nowMs = true) ∨
      s.Idle ∧ (s.processTasks nowMs).2 = [] := by
  have h0 : Sound ([] ++ (s.tasks ++ s.pendingTasks)) { s with pendingTasks := [], tasks := [] } :=
    { h with
      waiting := by simpa using h.waiting
      scheduled := by simpa using h.scheduled }
  by_cases hdue : ∃ t ∈ s.tasks ++ s.pendingTasks, t.task.runs nowMs = true
  · cases hc : s.accountInfo.connect with
    | false => exact .inl ⟨rfl, hdue⟩
    | true => exact absurd hidle.1 (runTasks_current h0 (.inr ⟨hc, hdue⟩))
  · have hnone : ∀ t ∈ s.tasks ++ s.pendingTasks, t.task.runs nowMs = false := fun t ht => by
      by_contra hruns
      exact hdue ⟨t, ht, by simpa using hruns⟩
    obtain ⟨hs, hlen, hns⟩ := runTasks_idle h0 hnone
    refine .inr ⟨⟨?_, ?_⟩, hns⟩
    · have := hidle.1
      simp only [processTasks, hs] at this
      exact this
    · have := hidle.2
      simp only [processTasks, hs, List.append_nil] at this
      rw [this] at hlen
      exact List.length_eq_zero_iff.mp hlen.symm

/-- A step after which there is no work and the last event said that no snapshot is available has given up, or has
found things so and has not been asked. -/
theorem step_idle (h : Sound s.tasks s) {said : Option Bool} (hidle : (s.step e).1.Idle)
    (hsaid : (lastReady (s.step e).2).or said = some false) :
    s.GivesUp e ∨ s.Idle ∧ said = some false ∧ ¬ s.Asks e := by
  obtain ⟨nowMs, action⟩ := e
  cases action with
  | account accountInfo => exact .inr ⟨hidle, hsaid, fun ha => ha.2⟩
  | authData authData =>
      simp only [step, onAuthData_eq] at hidle hsaid
      split at hidle
      · next hd => exact .inl hd
      · next hd =>
        rw [if_neg hd] at hsaid
        exact .inr ⟨hidle, hsaid, fun ha => ha.2⟩
  | restartAuth =>
      obtain ⟨hc, heq⟩ := requestSync_idle h hidle
      simp only [step, heq] at hidle hsaid
      exact .inr ⟨hidle, hsaid, fun ha => by simp [Asks, hc] at ha⟩
  | disconnectRequest => exact .inl trivial
  | accountInfoUpdate status =>
      cases status with
      | connected =>
          obtain ⟨hc, heq⟩ := requestSync_idle h hidle
          simp only [step, onAccountInfoUpdate, heq] at hidle hsaid
          exact .inr ⟨hidle, hsaid, fun ha => by simp [Asks, hc] at ha⟩
      | accountTypeChanged | currencyChanged =>
          obtain ⟨hc, -⟩ := requestSync_idle (h.invalidate _ _) hidle
          rw [invalidateAccountContext_eq h] at hc
          exact .inl (.inr (.inr ⟨by simp, hc⟩))
      | disconnected => exact .inl (.inl rfl)
      | failedToConnect => exact .inl (.inr (.inl rfl))
      | unknown | balanceUpdated | openTradesChanged | connecting =>
          exact .inr ⟨hidle, hsaid, fun ha => by simp [Asks] at ha⟩
  | refreshRequest reason =>
      obtain ⟨hc, heq⟩ := scheduleSync_idle h hidle
      simp only [step, heq] at hidle hsaid
      exact .inr ⟨hidle, hsaid, fun ha => by simp [Asks, hc] at ha⟩
  | process =>
      rcases processTasks_idle h hidle with hgives | ⟨hs, hns⟩
      · exact .inl hgives
      · simp only [step, hns] at hsaid
        exact .inr ⟨hs, hsaid, fun ha => ha.2⟩
  | reply n closeTimesMs =>
      simp only [step] at hidle hsaid
      split at hidle
      · next hn =>
        rw [hn] at hsaid
        exact .inr ⟨hidle, hsaid, fun ha => ha.2⟩
      · next request hn =>
        rw [hn] at hsaid
        dsimp only at hsaid
        unfold onReply at hidle hsaid
        split at hidle
        · next hg =>
          rw [if_pos hg] at hsaid
          exact .inr ⟨hidle, hsaid, fun ha => ha.2⟩
        next hg =>
        rw [if_neg hg] at hsaid
        split at hidle
        · next hc => exact .inl ⟨request, hn, not_not.mp hg, .inl (by simpa using hc)⟩
        next hc =>
        rw [if_neg hc] at hsaid
        split at hidle
        · next hctx => exact .inl ⟨request, hn, not_not.mp hg, .inr (by simpa using hctx)⟩
        next hctx =>
        rw [if_neg hctx] at hsaid
        cases closeTimesMs with
        | none =>
            -- A failed request leaves a refresh behind.
            have hwaits := (scheduleSync_idle (s := s.endRequest) h.endRequest hidle).1
            exact absurd (by simp [show s.accountInfo.connect = false from hwaits]) hc
        | some closeTimesMs => simp [lastReady, Notice.ready?] at hsaid
  | shutdown => exact .inl trivial

end ActiveTradesSyncManager

end OptionX.IntradeBar
