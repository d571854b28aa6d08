import OptionX.TradingView.ExtensionBridge

/-!
# Runs of signal posts

A key is taken back from the set alone, so that queue and set stay together exactly while no reservation fails.
-/

namespace OptionX.TradingView

open Lib (RecentKeys Step)
open Lib.RecentKeys (Coherent Follows Spaced)
open Lib.Run (exec trace stepOf)

variable {F : Type} {cacheSize : Nat} {state : RuntimeState} {post : SignalPost F}

/-- The key of a payload that was accepted. -/
def SignalPost.key? (post : SignalPost F) : Option Text :=
  match post.request with
  | .ok result => if result.authorized ∧ result.accepted then some result.dedupeKey else none
  | .error _ => none

/-- The allocator gives an id, and there is a callback. -/
def SignalPost.Dispatchable (post : SignalPost F) : Prop :=
  (∃ allocator signalId, post.allocator = some allocator ∧ allocate allocator = .ok signalId) ∧
    post.callback.isSome = true

/-- The key of the post is known, or the signal can be dispatched. -/
def Meets (t : Step RuntimeState (SignalPost F) PostOutcome) : Prop :=
  ∀ key ∈ t.event.key?, key ≠ [] → key ∈ t.before.dedupe.keys ∨ t.event.Dispatchable

/-- The keys that were newly remembered. -/
def arrivals (steps : List (Step RuntimeState (SignalPost F) PostOutcome)) : List Text :=
  steps.filterMap fun t => t.answer.remembered

/-- Between two calls for one key, so many further keys were remembered. -/
def DispatchedOnce (cacheSize : Nat) (steps : List (Step RuntimeState (SignalPost F) PostOutcome)) : Prop :=
  ∀ before t between t' after key, steps = before ++ t :: (between ++ t' :: after) → t.answer.called = some key →
    t'.answer.called = some key → cacheSize ≤ (arrivals between).length

/-! ## One post -/

theorem dispatchSignal_dispatchable (h : post.Dispatchable) (key : Text) :
    (dispatchSignal state key post).1 = state ∧ (dispatchSignal state key post).2.remembered = some key ∧
      (dispatchSignal state key post).2.called = some key := by
  obtain ⟨⟨allocator, signalId, hallocator, hid⟩, hcallback⟩ := h
  obtain ⟨callback, hcallback⟩ := Option.isSome_iff_exists.mp hcallback
  simp only [dispatchSignal, hallocator, hcallback, hid]
  cases callback <;> exact ⟨rfl, rfl, rfl⟩

theorem dispatchSignal_failed (h : ¬ post.Dispatchable) (key : Text) :
    (dispatchSignal state key post).1 = forgetDedupeKey state key ∧
      (dispatchSignal state key post).2.called = none := by
  unfold dispatchSignal
  cases hallocator : post.allocator with
  | none => exact ⟨rfl, rfl⟩
  | some allocator =>
    cases hcallback : post.callback with
    | none => exact ⟨rfl, rfl⟩
    | some callback =>
      cases hid : allocate allocator with
      | error message => simp [PostOutcome.called, hid]
      | ok signalId => exact absurd ⟨⟨allocator, signalId, hallocator, hid⟩, by simp [hcallback]⟩ h

theorem handleSignalPost_ignored (h : post.key? = none) :
    (handleSignalPost cacheSize state post).1 = state ∧
      (handleSignalPost cacheSize state post).2.remembered = none ∧
      (handleSignalPost cacheSize state post).2.called = none := by
  unfold handleSignalPost
  unfold SignalPost.key? at h
  cases hrequest : post.request with
  | error refusal => cases refusal <;> exact ⟨rfl, rfl, rfl⟩
  | ok result =>
    cases hauthorized : result.authorized with
    | false => simp [hauthorized, PostOutcome.called]
    | true =>
      cases haccepted : result.accepted with
      | false => simp [hauthorized, haccepted, PostOutcome.called]
      | true => simp [hrequest, hauthorized, haccepted] at h

theorem handleSignalPost_known {key : Text} (hkey : post.key? = some key) (hne : key ≠ [])
    (h : key ∈ state.dedupe.keys) :
    (handleSignalPost cacheSize state post).1 = state ∧
      (handleSignalPost cacheSize state post).2.remembered = none ∧
      (handleSignalPost cacheSize state post).2.called = none := by
  unfold SignalPost.key? at hkey
  cases hrequest : post.request with
  | error refusal => simp [hrequest] at hkey
  | ok result =>
    simp only [hrequest, Option.ite_none_right_eq_some, Option.some.injEq] at hkey
    obtain ⟨⟨hauthorized, haccepted⟩, rfl⟩ := hkey
    simp [handleSignalPost, hrequest, hauthorized, haccepted, rememberDedupeKey, hne, h, PostOutcome.called]

theorem handleSignalPost_new {key : Text} (hkey : post.key? = some key) (hne : key ≠ [])
    (h : key ∉ state.dedupe.keys) :
    handleSignalPost cacheSize state post =
      dispatchSignal { state with dedupe := (state.dedupe.remember cacheSize key).1 } key post := by
  unfold SignalPost.key? at hkey
  cases hrequest : post.request with
  | error refusal => simp [hrequest] at hkey
  | ok result =>
    simp only [hrequest, Option.ite_none_right_eq_some, Option.some.injEq] at hkey
    obtain ⟨⟨hauthorized, haccepted⟩, rfl⟩ := hkey
    simp [handleSignalPost, hrequest, hauthorized, haccepted, rememberDedupeKey, hne, RecentKeys.remember_new h]

/-- A post without a key is not remembered. -/
theorem handleSignalPost_keyless (hkey : post.key? = some []) : (handleSignalPost cacheSize state post).1 = state := by
  unfold SignalPost.key? at hkey
  cases hrequest : post.request with
  | error refusal => simp [hrequest] at hkey
  | ok result =>
    simp only [hrequest, Option.ite_none_right_eq_some, Option.some.injEq] at hkey
    obtain ⟨⟨hauthorized, haccepted⟩, hempty⟩ := hkey
    have hhandled : handleSignalPost cacheSize state post = dispatchSignal state [] post := by
      simp [handleSignalPost, hrequest, hauthorized, haccepted, rememberDedupeKey, hempty]
    rw [hhandled]
    by_cases hdispatch : post.Dispatchable
    · exact (dispatchSignal_dispatchable hdispatch []).1
    · exact (dispatchSignal_failed hdispatch []).1

/-- A key that is taken back stays in the queue. -/
theorem forgetDedupeKey_incoherent (hsize : 0 < cacheSize) (h : Coherent cacheSize state.dedupe) {key : Text}
    (hne : key ≠ []) : ¬ Coherent cacheSize
      (forgetDedupeKey { state with dedupe := (state.dedupe.remember cacheSize key).1 } key).dedupe := by
  intro hcoherent
  have hqueued := ((h.remember key).mem_iff).mp (RecentKeys.mem_remember hsize h key)
  rw [forgetDedupeKey, if_neg hne] at hcoherent
  have hkept := hcoherent.mem_iff.mpr hqueued
  simp at hkept

/-- A post keeps queue and set together exactly where it meets the condition. -/
theorem handleSignalPost_coherent_iff (hsize : 0 < cacheSize) (h : Coherent cacheSize state.dedupe) :
    Coherent cacheSize (handleSignalPost cacheSize state post).1.dedupe ↔
      Meets (stepOf (handleSignalPost cacheSize) state post) := by
  unfold Meets
  rw [Lib.Run.stepOf_event, Lib.Run.stepOf_before]
  cases hkey : post.key? with
  | none =>
    rw [(handleSignalPost_ignored hkey).1]
    simp [h]
  | some key =>
    by_cases hne : key = []
    · subst hne
      rw [handleSignalPost_keyless hkey]
      simp [h]
    by_cases hknown : key ∈ state.dedupe.keys
    · rw [(handleSignalPost_known hkey hne hknown).1]
      simp [h, hknown]
    · rw [handleSignalPost_new hkey hne hknown]
      by_cases hdispatch : post.Dispatchable
      · rw [(dispatchSignal_dispatchable hdispatch key).1]
        simp [h.remember, hdispatch]
      · rw [(dispatchSignal_failed hdispatch key).1]
        simp [forgetDedupeKey_incoherent hsize h hne, hne, hknown, hdispatch]

/-! ## Runs -/

/-- What holds of the posts so far and the state after them. -/
structure Tracks (cacheSize : Nat) (steps : List (Step RuntimeState (SignalPost F) PostOutcome))
    (state : RuntimeState) : Prop where
  coherent : Coherent cacheSize state.dedupe
  follows : Follows cacheSize state.dedupe (arrivals steps)
  spaced : Spaced cacheSize (arrivals steps)

theorem called_remembered {outcome : PostOutcome} {key : Text} (h : outcome.called = some key) :
    outcome.remembered = some key := by
  unfold PostOutcome.called at h
  split at h
  · exact h
  · cases h

theorem Tracks.step {steps : List (Step RuntimeState (SignalPost F) PostOutcome)}
    (h : Tracks cacheSize steps state) (hkeys : ∀ key ∈ post.key?, key ≠ [])
    (hmeets : ∀ key ∈ post.key?, key ≠ [] → key ∈ state.dedupe.keys ∨ post.Dispatchable) :
    Tracks cacheSize (steps ++ [stepOf (handleSignalPost cacheSize) state post])
      (handleSignalPost cacheSize state post).1 := by
  have hquiet : (handleSignalPost cacheSize state post).1 = state →
      (handleSignalPost cacheSize state post).2.remembered = none →
      Tracks cacheSize (steps ++ [stepOf (handleSignalPost cacheSize) state post])
        (handleSignalPost cacheSize state post).1 := by
    intro hstate hnone
    have harrivals : arrivals (steps ++ [stepOf (handleSignalPost cacheSize) state post]) = arrivals steps := by
      simp [arrivals, hnone]
    rw [hstate]
    exact ⟨h.coherent, harrivals ▸ h.follows, harrivals ▸ h.spaced⟩
  cases hkey : post.key? with
  | none =>
    obtain ⟨hstate, hnone, -⟩ := @handleSignalPost_ignored _ cacheSize state _ hkey
    exact hquiet hstate hnone
  | some key =>
    have hne := hkeys key hkey
    by_cases hknown : key ∈ state.dedupe.keys
    · obtain ⟨hstate, hnone, -⟩ := @handleSignalPost_known _ cacheSize _ _ _ hkey hne hknown
      exact hquiet hstate hnone
    · have hdispatch := (hmeets key hkey hne).resolve_left hknown
      have hnew := @handleSignalPost_new _ cacheSize _ _ _ hkey hne hknown
      obtain ⟨hstate, hremembered, -⟩ := @dispatchSignal_dispatchable _
        { state with dedupe := (state.dedupe.remember cacheSize key).1 } _ hdispatch key
      rw [← hnew] at hstate hremembered
      have harrivals : arrivals (steps ++ [stepOf (handleSignalPost cacheSize) state post]) =
          arrivals steps ++ [key] := by
        simp [arrivals, hremembered]
      rw [hstate]
      refine ⟨h.coherent.remember key, harrivals ▸ h.follows.remember hknown, ?_⟩
      rw [harrivals]
      apply h.spaced.snoc
      rw [← h.follows, ← h.coherent.mem_iff]
      exact hknown

theorem Tracks.dispatchedOnce {steps : List (Step RuntimeState (SignalPost F) PostOutcome)}
    (h : Tracks cacheSize steps state) : DispatchedOnce cacheSize steps := by
  rintro before t between t' after key rfl ht ht'
  have hsplit : arrivals (before ++ t :: (between ++ t' :: after)) =
      arrivals before ++ key :: (arrivals between ++ key :: arrivals after) := by
    simp [arrivals, called_remembered ht, called_remembered ht']
  exact h.spaced _ _ _ _ hsplit

end OptionX.TradingView
