import OptionX.Telegram.Lemmas.SourceChains

/-!
# Runs of the signal bridge

Only the outcomes of a message, a dispatched signal, an expiry, a new run and a shutdown change the source chains.
-/

namespace OptionX.Telegram.RuntimeState

variable {config : TelegramSignalBridgeConfig} {s : RuntimeState} {seen : List TelegramParsedSignal}

/-! ## Reservations leave the chains -/

@[simp] theorem rememberDedupeKey_chains (dedupeKey : Text) : (s.rememberDedupeKey config dedupeKey).chains = s.chains := rfl

theorem reserveMartingale_chains {raw : TelegramRawMessage} {receivedTimeMs : Int} {signal : TelegramParsedSignal}
    {reservation : Reservation} {reserved : RuntimeState × Reservation}
    (h : s.reserveMartingale config raw receivedTimeMs signal reservation = some reserved) :
    reserved.1.chains = s.chains := by
  unfold reserveMartingale at h
  split at h
  · split at h
    · cases h
    · cases h
      rfl
  · split at h
    · cases h
    · dsimp only at h
      split at h
      · cases h
      · cases h
        rfl
  · cases h
    rfl

theorem reserveAntiMartingale_chains {raw : TelegramRawMessage} {signal : TelegramParsedSignal} {reservation : Reservation}
    {reserved : RuntimeState × Option Reservation}
    (h : s.reserveAntiMartingale config raw signal reservation = reserved) : reserved.1.chains = s.chains := by
  rw [← h]
  unfold reserveAntiMartingale
  split
  · rfl
  · dsimp only
    split <;> rfl

@[simp] theorem rollbackDispatchState_chains (reservation : Reservation) :
    (s.rollbackDispatchState reservation).chains = s.chains := by
  unfold rollbackDispatchState
  dsimp only
  split <;> split <;> rfl

theorem registerAntiMartingaleDispatch_chains {reservation : Reservation} {signalId : Nat} {s' : RuntimeState}
    (h : s.registerAntiMartingaleDispatch reservation signalId = some s') : s'.chains = s.chains := by
  simp only [registerAntiMartingaleDispatch, Option.bind_eq_bind, Option.bind_eq_some_iff] at h
  obtain ⟨group, -, h⟩ := h
  split at h
  · cases h
  · cases h
    rfl

@[simp] theorem commitMartingaleDispatchState_chains (reservation : Reservation) :
    (s.commitMartingaleDispatchState reservation).chains = s.chains := by
  unfold commitMartingaleDispatchState
  split <;> rfl

@[simp] theorem rollbackAssumedSourceChainStep_chains (chain : SourceChainState) :
    (s.rollbackAssumedSourceChainStep chain).chains = s.chains := by
  unfold rollbackAssumedSourceChainStep
  dsimp only
  split <;> rfl

/-- The state that a dispatch leaves. -/
def Dispatch.state : Dispatch → RuntimeState
  | .failed s | .ambiguous s | .dispatched s => s

theorem dispatch_chains (surroundings : Surroundings) (reservation : Reservation) (required : Bool) :
    (s.dispatch surroundings reservation required).state.chains = s.chains := by
  unfold dispatch
  split
  · simp [Dispatch.state]
  · simp [Dispatch.state]
  · split
    · simp [Dispatch.state]
    · dsimp only
      split
      · simp [Dispatch.state]
      · next hregistered =>
        split at hregistered
        · split <;> exact registerAntiMartingaleDispatch_chains hregistered
        · cases hregistered
          split <;> rfl

/-! ## Work -/

/-- The work for a message that comes next, with the message. -/
def nextWork (s : RuntimeState) : Option (TelegramRawMessage × Work) :=
  match s.intake with
  | ⟨raw, _, next :: _⟩ :: _ => some (raw, next)
  | _ => none

/-- What work for a message does to the chains. -/
def workChains (config : TelegramSignalBridgeConfig) (nowMs : Int) (raw : TelegramRawMessage) (chains : SourceChains) :
    Work → SourceChains
  | .outcome outcome => chains.processOutcome nowMs outcome
  | .remember signal _ => chains.remember config raw signal
  | _ => chains

@[simp] theorem reserveSignal_chains (surroundings : Surroundings) (raw : TelegramRawMessage) (receivedTimeMs : Int)
    (signal : TelegramParsedSignal) (index : Nat) :
    (s.reserveSignal config surroundings raw receivedTimeMs signal index).1.chains = s.chains := by
  unfold reserveSignal
  dsimp only
  split
  · rfl
  · split
    · rfl
    · split
      · rfl
      · split
        · rfl
        · next s₁ reservation hmartingale =>
          have hchains := reserveMartingale_chains hmartingale
          split
          · next hanti => exact (reserveAntiMartingale_chains hanti).trans hchains
          · next hanti => exact (reserveAntiMartingale_chains hanti).trans hchains

theorem work_chains (surroundings : Surroundings) (raw : TelegramRawMessage) (receivedTimeMs : Int) (next : Work) :
    (s.work config surroundings raw receivedTimeMs next).1.chains =
      workChains config surroundings.nowMs raw s.chains next := by
  cases next with
  | outcome outcome => rfl
  | signal signal index => exact reserveSignal_chains surroundings raw receivedTimeMs signal index
  | dispatch signal reservation =>
    have hchains : (s.dispatch surroundings reservation reservation.antiMartingalePending).state.chains = s.chains :=
      dispatch_chains surroundings reservation reservation.antiMartingalePending
    cases hdispatch : s.dispatch surroundings reservation reservation.antiMartingalePending <;>
      simpa [work, hdispatch, workChains, Dispatch.state] using hchains
  | remember signal reservation => rfl
  | commit reservation => exact commitMartingaleDispatchState_chains reservation

theorem intakeStep_chains (surroundings : Surroundings) :
    (s.intakeStep config surroundings).chains =
      s.nextWork.elim s.chains fun work => workChains config surroundings.nowMs work.1 s.chains work.2 := by
  unfold intakeStep nextWork
  split
  · simp_all
  · simp_all
  · next raw receivedTimeMs next later others hintake =>
    simp only [hintake, Option.elim_some]
    exact work_chains surroundings raw receivedTimeMs next

/-! ## The watchdog and the broker -/

@[simp] theorem assume_chains (surroundings : Surroundings) (chain : SourceChainState) :
    (s.assume config surroundings chain).1.chains = s.chains := by
  unfold assume
  dsimp only
  split
  · rfl
  · split
    · rfl
    · split
      · next hreserved =>
        split at hreserved
        · exact reserveAntiMartingale_chains hreserved
        · split at hreserved
          · cases hreserved
            rfl
          · cases hreserved
      · next hreserved =>
        split at hreserved
        · have hchains := reserveAntiMartingale_chains hreserved
          exact hchains
        · split at hreserved
          · cases hreserved
          · cases hreserved
            rfl

@[simp] theorem expiredStep_chains (surroundings : Surroundings) :
    (s.expiredStep config surroundings).chains = s.chains := by
  unfold expiredStep
  split
  · rfl
  · next chain later hwatchdog =>
    have hassume : (assume config { s with watchdog := later } surroundings chain).1.chains = s.chains :=
      assume_chains surroundings chain
    dsimp only
    split
    · rfl
    · split
      · next heq => rw [heq] at hassume; exact hassume
      · next heq => rw [heq] at hassume; exact hassume
  · next chain reservation later hwatchdog =>
    have hdispatch : (dispatch { s with watchdog := later } surroundings reservation true).state.chains = s.chains :=
      dispatch_chains surroundings reservation true
    dsimp only
    split
    · next heq =>
      rw [heq] at hdispatch
      exact (rollbackAssumedSourceChainStep_chains chain).trans hdispatch
    · next heq => rw [heq] at hdispatch; exact hdispatch
    · next heq => rw [heq] at hdispatch; exact hdispatch
  · simp

@[simp] theorem updateTradeResult_chains (signalId : Nat) (isWin : Bool) :
    (s.updateTradeResult config signalId isWin).chains = s.chains := by
  unfold updateTradeResult
  split
  · rfl
  · split
    · rfl
    · split
      · rfl
      · split <;> rfl

/-! ## Steps -/

/-- The signals that a message brings in. -/
def Action.signals : Action → List TelegramParsedSignal
  | .receive _ parsed _ => parsed.signals
  | _ => []

/-- Every signal that some actions bring in. -/
def published (actions : List Action) : List TelegramParsedSignal := actions.flatMap Action.signals

/-- What a step does is right: the keys lead to the chains, and an outcome has its effect on the right chain only. -/
structure StepRight (config : TelegramSignalBridgeConfig) (seen : List TelegramParsedSignal) (s : RuntimeState)
    (action : Action) : Prop where
  linked : (s.step config action).1.chains.Linked
  outcome : ∀ surroundings raw outcome, action = .intake surroundings → s.nextWork = some (raw, .outcome outcome) →
    SourceChains.OutcomeRight seen surroundings.nowMs outcome s.chains (s.step config action).1.chains

/-- The condition on the work that comes next for a message. -/
def WorkFits (config : TelegramSignalBridgeConfig) (seen : List TelegramParsedSignal) (chains : SourceChains)
    (raw : TelegramRawMessage) : Work → Prop
  | .outcome outcome => chains.OutcomeFits seen outcome
  | .remember signal _ => chains.SignalFits config raw signal
  | _ => True

/-- The condition on an action. -/
def Fits (config : TelegramSignalBridgeConfig) (seen : List TelegramParsedSignal) (s : RuntimeState) : Action → Prop
  | .expire nowMs => s.chains.ExpiryFits nowMs
  | .intake _ => ∀ raw next, s.nextWork = some (raw, next) → WorkFits config seen s.chains raw next
  | _ => True

theorem stepRight_of_chains {action : Action} (h : s.chains.Linked) (hidle : ∀ surroundings, action ≠ .intake surroundings)
    (hsame : (s.step config action).1.chains = s.chains) : StepRight config seen s action where
  linked := hsame ▸ h
  outcome surroundings _ _ haction := absurd haction (hidle surroundings)

theorem stepRight_intake_iff (h : s.chains.Linked) (surroundings : Surroundings) :
    StepRight config seen s (.intake surroundings) ↔ Fits config seen s (.intake surroundings) := by
  have hchains : (s.step config (.intake surroundings)).1.chains =
      s.nextWork.elim s.chains fun work => workChains config surroundings.nowMs work.1 s.chains work.2 :=
    intakeStep_chains surroundings
  cases hnext : s.nextWork with
  | none =>
    rw [hnext] at hchains
    refine iff_of_true ⟨hchains ▸ h, ?_⟩ ?_
    · intro _ _ _ _ hwork
      rw [hnext] at hwork
      cases hwork
    · intro _ _ hwork
      rw [hnext] at hwork
      cases hwork
  | some work =>
    obtain ⟨raw, next⟩ := work
    rw [hnext, Option.elim_some] at hchains
    have hfits : Fits config seen s (.intake surroundings) ↔ WorkFits config seen s.chains raw next := by
      simp only [Fits, hnext]
      exact ⟨fun hall => hall raw next rfl, by rintro hwork _ _ ⟨⟩; exact hwork⟩
    have hother : (∀ outcome, next ≠ .outcome outcome) →
        (StepRight config seen s (.intake surroundings) ↔
          (workChains config surroundings.nowMs raw s.chains next).Linked) := by
      intro hne
      refine ⟨fun hright => hchains ▸ hright.linked, fun hlinked => ⟨hchains ▸ hlinked, ?_⟩⟩
      intro _ _ outcome _ hwork
      rw [hnext] at hwork
      cases hwork
      exact absurd rfl (hne outcome)
    rw [hfits]
    cases next with
    | outcome outcome =>
      simp only [workChains] at hchains
      refine Iff.trans ⟨?_, ?_⟩ (@SourceChains.outcome_right_iff _ _ _ surroundings.nowMs h)
      · intro hright
        exact ⟨hchains ▸ hright.linked, hchains ▸ hright.outcome surroundings raw outcome rfl hnext⟩
      · rintro ⟨hlinked, hright⟩
        refine ⟨hchains ▸ hlinked, ?_⟩
        rintro surroundings' raw' outcome' ⟨⟩ hwork
        rw [hnext] at hwork
        cases hwork
        exact hchains ▸ hright
    | remember signal reservation => exact (hother (by simp)).trans (SourceChains.linked_remember h)
    | signal signal index => exact (hother (by simp)).trans (iff_of_true h trivial)
    | dispatch signal reservation => exact (hother (by simp)).trans (iff_of_true h trivial)
    | commit reservation => exact (hother (by simp)).trans (iff_of_true h trivial)

theorem stepRight_iff (h : s.chains.Linked) (action : Action) :
    StepRight config seen s action ↔ Fits config seen s action := by
  cases action with
  | run =>
    refine iff_of_true ⟨?_, by simp⟩ trivial
    simp only [step]
    split
    · exact h
    · exact SourceChains.linked_empty
  | shutdown => exact iff_of_true ⟨SourceChains.linked_empty, by simp⟩ trivial
  | receive raw parsed receivedTimeMs => exact iff_of_true (stepRight_of_chains h (by simp) rfl) trivial
  | intake surroundings => exact stepRight_intake_iff h surroundings
  | expire nowMs =>
    refine Iff.trans ?_ (SourceChains.linked_expire h)
    exact ⟨fun hright => hright.linked, fun hlinked => ⟨hlinked, by simp⟩⟩
  | watchdog surroundings =>
    exact iff_of_true (stepRight_of_chains h (by simp) (expiredStep_chains surroundings)) trivial
  | updateTradeResult signalId isWin =>
    exact iff_of_true (stepRight_of_chains h (by simp) (updateTradeResult_chains signalId isWin)) trivial

end OptionX.Telegram.RuntimeState
