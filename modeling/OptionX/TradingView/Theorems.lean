import OptionX.TradingView.Lemmas.ExtensionBridge
import OptionX.TradingView.Lemmas.Payload
import OptionX.TradingView.Lemmas.StudyAlert

/-!
# The TradingView bridge

When the timing of alerts stays in range, what authorisation tells of a payload, and how often the callback is called
for one event.
-/

namespace OptionX.TradingView

open Lib.Machine

/-! ## The timing of study alerts -/

section

variable {F : Type}

theorem validate_checks {lib : Library F} {config : TradingViewExtensionBridgeConfig F}
    (h : (config.validate lib).1 = true) : ∀ check ∈ config.checks lib, check.1 = true := by
  unfold TradingViewExtensionBridgeConfig.validate at h
  cases hfind : (config.checks lib).find? fun check => !check.1 with
  | none =>
      intro check hcheck
      simpa using List.find?_eq_none.mp hfind check hcheck
  | some check => simp [hfind] at h

theorem closeWindow_nonneg {lib : Library F} {config : TradingViewExtensionBridgeConfig F}
    (h : (config.validate lib).1 = true) : 0 ≤ config.studyAlertCloseWindowSeconds := by
  have hcheck := validate_checks h
    (decide (0 ≤ config.studyAlertCloseWindowSeconds),
      "TradingView bridge study alert close_window_seconds must not be negative.")
    (by simp [TradingViewExtensionBridgeConfig.checks])
  exact of_decide_eq_true hcheck

/-- For every value, text, event and clock: what each function of the timing needs to stay in range and to be exact. -/
theorem studyAlert_timing_iff (lib : Library F) {config : TradingViewExtensionBridgeConfig F}
    (hvalid : (config.validate lib).1 = true) (object : Json F) (keys : List String) (timeframe : Text)
    (value fallback : Int) (event : NormalizedEvent F) (referenceNow : Int) {now : Int} (hnow : now ≤ int64Max) :
    ((∃ number, jsonInteger lib object fallback keys = .ok number) ↔
      ∀ taken ∈ firstTaken object keys, taken.ConversionFits lib) ∧
    normalizeEpochMs value = .ok (epochMs value) ∧
    (parseTimeframeSeconds timeframe fallback = .ok (timeframeSeconds timeframe fallback) ↔
      TimeframeFits timeframe) ∧
    (isStaleStudyAlert config event referenceNow now = .ok (decide (Stale config event referenceNow now)) ↔
      AgeFits config event referenceNow now) ∧
    (isWithinCloseWindow config event now = .ok (decide (WithinClose config event now)) ↔
      CloseFits config event) := by
  refine ⟨jsonInteger_ok_iff lib object fallback keys, normalizeEpochMs_eq value, ?_,
    isStaleStudyAlert_exact_iff config event referenceNow hnow,
    isWithinCloseWindow_exact_iff (closeWindow_nonneg hvalid) event now⟩
  rw [parseTimeframeSeconds_eq]
  split
  · next hfits => exact iff_of_true rfl hfits
  · next hlarge => exact iff_of_false (by simp) hlarge

end

/-- Whole numbers in the place of fractional ones. -/
def wholeNumbers : Library Int where
  zero := 0
  one := 1
  isFinite _ := true
  less a b := decide (a < b)
  equal a b := decide (a = b)
  ofInt n := n
  truncate n := n
  format n := text (toString n)
  stod _ := none
  parse _ := none
  dump _ := []
  unicodeCaseFold value := lowerCopy value

def sampleConfig : TradingViewExtensionBridgeConfig Int :=
  { bridgeId := 1, fixedAmount := 1, balancePercent := 0, minAmount := 0, maxAmount := 0, minPayout := 0
    studyAlertRejectHistorical := true }

def sampleEvent : NormalizedEvent Int :=
  { price := 0, triggerValue := 0, raw := .null, timeframe := text "5", time := 1700000000 }

theorem studyAlert_timing_iff_fiveMinutes :
    isWithinCloseWindow sampleConfig sampleEvent 1700000295000 =
      .ok (decide (WithinClose sampleConfig sampleEvent 1700000295000)) :=
  (studyAlert_timing_iff wholeNumbers (by decide : (sampleConfig.validate wholeNumbers).1 = true) .null [] [] 0 0
    sampleEvent 0 (by decide : (1700000295000 : Int) ≤ int64Max)).2.2.2.2.mpr ⟨by decide, by decide⟩

/-- A timeframe text, a fractional time, a timeframe in seconds and a greatest age that leave the range. -/
theorem studyAlert_overflows :
    parseTimeframeSeconds (text "9223372036854775807") 60 = .error .signed ∧
    jsonInteger wholeNumbers (.object [(text "time", .float (2 ^ 63))]) 0 ["time"] = .error .conversion ∧
    isWithinCloseWindow sampleConfig { sampleEvent with timeframeSeconds := int64Max } 1700000295000 =
      .error .signed ∧
    (({ sampleConfig with studyAlertMaxSignalAgeSeconds := int64Max } :
      TradingViewExtensionBridgeConfig Int).validate wholeNumbers).1 = true ∧
    isStaleStudyAlert { sampleConfig with studyAlertMaxSignalAgeSeconds := int64Max } sampleEvent
      1700000295000 1700000295000 = .error .signed := by
  refine ⟨by decide, by decide, by decide, by decide, by decide⟩

/-! ## Authorisation -/

section

variable {F : Type}

/-- A request passes with the configured secret alone unless the two differ in zero bytes at the end; and what the bridge
gives back tells nothing of a secret besides the decision. -/
theorem authorisation_exact_iff (lib : Library F) {config : TradingViewExtensionBridgeConfig F}
    (hsecret : config.secret ≠ []) (clock : ClockReadings) (requestSecret : Text) (payload : Json F) :
    ((¬ Refused lib config clock requestSecret payload ↔
        effectiveSecret lib config requestSecret payload = config.secret) ↔
      ¬ PaddedAlike (effectiveSecret lib config requestSecret payload) config.secret) ∧
    ∀ (requestSecret' : Text) (payload' : Json F), Agree payload payload' →
      (Refused lib config clock requestSecret payload ↔ Refused lib config clock requestSecret' payload') →
      parseExtensionPayload lib config clock requestSecret payload =
        parseExtensionPayload lib config clock requestSecret' payload' := by
  constructor
  · rw [refused_iff, Bool.not_eq_false, isAuthorized, decide_eq_false hsecret, Bool.false_or]
    exact constantTimeEquals_exact_iff _ _
  · intro requestSecret' payload' hagree hdecision
    rw [refused_iff, refused_iff, Bool.eq_false_iff, Bool.eq_false_iff, not_iff_not] at hdecision
    exact parseExtensionPayload_agree hagree config clock (Bool.eq_iff_iff.mpr hdecision)

end

def secretConfig : TradingViewExtensionBridgeConfig Int :=
  { sampleConfig with secret := text "key", allowBodySecretFallback := true }

/-- A payload with a secret in its body. -/
def bodySecret (secret : Text) : Json Int := .object [(text "secret", .string secret)]

theorem effectiveSecret_bodySecret (secret : Text) :
    effectiveSecret wholeNumbers secretConfig [] (bodySecret secret) = secret := by
  cases secret with
  | nil => rfl
  | cons _ _ => rfl

theorem authorisation_exact_iff_key :
    secretConfig.secret ≠ [] ∧ ¬ PaddedAlike (text "key") secretConfig.secret ∧
      ¬ Refused wholeNumbers secretConfig ⟨0, 0, 0⟩ [] (bodySecret (text "key")) ∧
      parseExtensionPayload wholeNumbers secretConfig ⟨0, 0, 0⟩ [] (bodySecret (text "key")) =
        parseExtensionPayload wholeNumbers secretConfig ⟨0, 0, 0⟩ (text "key") (bodySecret (text "other")) := by
  have hsecret : secretConfig.secret ≠ [] := by decide
  have hdistinct : ¬ PaddedAlike (text "key") secretConfig.secret := fun h => h.ne rfl
  have hexact := authorisation_exact_iff wholeNumbers hsecret ⟨0, 0, 0⟩ [] (bodySecret (text "key"))
  have hpasses : ¬ Refused wholeNumbers secretConfig ⟨0, 0, 0⟩ [] (bodySecret (text "key")) :=
    (hexact.1.mpr hdistinct).mpr rfl
  have hother : ¬ Refused wholeNumbers secretConfig ⟨0, 0, 0⟩ (text "key") (bodySecret (text "other")) :=
    ((authorisation_exact_iff wholeNumbers hsecret ⟨0, 0, 0⟩ (text "key") (bodySecret (text "other"))).1.mpr
      hdistinct).mpr rfl
  refine ⟨hsecret, hdistinct, hpasses, hexact.2 _ _ (.object (.secret _ _ (by decide) .nil)) ?_⟩
  exact iff_of_false hpasses hother

/-- The configured secret with 256 zero bytes behind it passes. -/
theorem paddedSecret_passes :
    ¬ Refused wholeNumbers secretConfig ⟨0, 0, 0⟩ [] (bodySecret (text "key" ++ List.replicate 256 0)) ∧
      effectiveSecret wholeNumbers secretConfig [] (bodySecret (text "key" ++ List.replicate 256 0)) ≠
        secretConfig.secret := by
  have hpadded : PaddedAlike
      (effectiveSecret wholeNumbers secretConfig [] (bodySecret (text "key" ++ List.replicate 256 0)))
      secretConfig.secret := by
    rw [effectiveSecret_bodySecret]
    exact ⟨1, Nat.one_pos, .inl rfl⟩
  refine ⟨?_, hpadded.ne⟩
  rw [refused_iff, isAuthorized, (constantTimeEquals_iff _ _).mpr (.inr hpadded), Bool.or_true]
  exact Bool.noConfusion

/-! ## Dispatch -/

section

open Lib.RecentKeys (Coherent Follows Spaced)
open Lib.Run (exec trace mem_trace history_induct forall_trace_iff)

variable {F : Type}

/-- For every run of posts: queue and set stay together and no key is dispatched again too early, exactly while every
post with a new key finds an allocator that gives an id and a callback. -/
theorem dispatchedOnce_iff {cacheSize : Nat} (hsize : 1 ≤ cacheSize) {posts : List (SignalPost F)}
    (hkeys : ∀ post ∈ posts, ∀ key ∈ post.key?, key ≠ []) :
    ((∀ t ∈ trace (handleSignalPost cacheSize) {} posts, Coherent cacheSize t.after.dedupe) ∧
        DispatchedOnce cacheSize (trace (handleSignalPost cacheSize) {} posts)) ↔
      ∀ t ∈ trace (handleSignalPost cacheSize) {} posts, Meets t := by
  have hcoherent : (∀ t ∈ trace (handleSignalPost cacheSize) ({} : RuntimeState) posts,
      Coherent cacheSize t.after.dedupe) ↔ ∀ t ∈ trace (handleSignalPost cacheSize) {} posts, Meets t := by
    apply forall_trace_iff (I := fun state => Coherent cacheSize state.dedupe)
    · intro state post h
      exact handleSignalPost_coherent_iff hsize h
    · intro state post h hmeets
      exact (handleSignalPost_coherent_iff hsize h).mpr hmeets
    · exact Coherent.empty
  rw [hcoherent]
  refine and_iff_left_of_imp fun hmeets => ?_
  have htracks : Tracks cacheSize (trace (handleSignalPost cacheSize) {} posts)
      (exec (handleSignalPost cacheSize) {} posts) := by
    apply history_induct (C := fun t => Meets t ∧ ∀ key ∈ t.event.key?, key ≠ [])
    · intro steps state post h hpost
      exact h.step hpost.2 hpost.1
    · exact ⟨Coherent.empty, Follows.empty, Spaced.nil _⟩
    · intro t ht
      obtain ⟨before, post, after, hposts, rfl⟩ := mem_trace ht
      exact ⟨hmeets _ ht, hkeys post (by simp [hposts])⟩
  exact htracks.dispatchedOnce

end

/-- A post of an accepted payload, with a callback that returns. -/
def acceptedPost (key : Text) (allocator : Option (CallResult Nat)) : SignalPost Int :=
  { request := .ok { accepted := true, dedupeKey := key }, allocator, callback := some (.returned ()) }

theorem dispatchedOnce_iff_repeated :
    DispatchedOnce 1 (Lib.Run.trace (handleSignalPost 1) {}
      [acceptedPost [97] (some (.returned 1)), acceptedPost [97] (some (.returned 2))]) := by
  refine ((dispatchedOnce_iff le_rfl ?_).mpr ?_).2
  · intro post hpost key hkey
    simp [acceptedPost] at hpost
    rcases hpost with rfl | rfl <;> simp [SignalPost.key?] at hkey <;> simp [← hkey]
  · intro t ht key _ _
    have hdispatch : t.event.Dispatchable := by
      simp at ht
      rcases ht with rfl | rfl
      · exact ⟨⟨_, 1, rfl, rfl⟩, rfl⟩
      · exact ⟨⟨_, 2, rfl, rfl⟩, rfl⟩
    exact .inr hdispatch

/-- A key that is taken back and posted again is evicted by its own older place in the queue. -/
def forgottenRun : List (SignalPost Int) :=
  [acceptedPost [97] none, acceptedPost [97] (some (.returned 1)), acceptedPost [98] (some (.returned 2)),
    acceptedPost [97] (some (.returned 3))]

theorem forgottenKey_dispatchedAgain :
    (∃ t ∈ Lib.Run.trace (handleSignalPost 2) {} forgottenRun, ¬ Lib.RecentKeys.Coherent 2 t.after.dedupe) ∧
      ¬ DispatchedOnce 2 (Lib.Run.trace (handleSignalPost 2) {} forgottenRun) := by
  constructor
  · refine ⟨_, List.mem_cons_self, fun h => ?_⟩
    exact absurd h.same (by decide)
  · intro h
    have hspaced := h [_] _ [_] _ [] [97] rfl (by decide) (by decide)
    exact absurd hspaced (by decide)

end OptionX.TradingView
