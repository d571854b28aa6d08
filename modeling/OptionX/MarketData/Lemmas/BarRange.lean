import OptionX.MarketData.BarRoute

/-!
# Ranges of bar history

The range that a request asks for: whole seconds, and no more bars than the limit per request.
-/

namespace OptionX.MarketData

namespace BarRoute

/-- The first millisecond that a request from `timeMs` on asks for: history counts in seconds. -/
def requestStart (timeMs : Nat) : Nat := secondsToMilliseconds (min (timeMs / 1000) int64Max)

theorem requestStart_mono {a b : Nat} (h : a ≤ b) : requestStart a ≤ requestStart b := by
  have hd : a / 1000 ≤ b / 1000 := Nat.div_le_div_right h
  unfold requestStart secondsToMilliseconds u64Max int64Max
  split <;> split <;> omega

theorem requestStart_le (a : Nat) : requestStart a ≤ a := by
  unfold requestStart secondsToMilliseconds u64Max int64Max
  split <;> omega

theorem requestStart_ne_zero {timeMs : Nat} (h : 1000 ≤ timeMs) : requestStart timeMs ≠ 0 := by
  unfold requestStart secondsToMilliseconds u64Max int64Max
  split <;> omega

/-- The end of a gap request under the limit per request. -/
def boundedTo (timeframe fromMs toMs maxBars : Nat) : Nat :=
  if 0 < maxBars ∧ fromMs ≤ toMs ∧ 0 < timeframe then
    min toMs (saturatingAdd fromMs (safeMultiply (safeMultiply timeframe 1000) (maxBars - 1)))
  else toMs

theorem boundedTo_le (timeframe fromMs toMs maxBars : Nat) : boundedTo timeframe fromMs toMs maxBars ≤ toMs := by
  unfold boundedTo
  split
  · exact min_le_left _ _
  · exact le_rfl

theorem le_boundedTo (timeframe maxBars : Nat) {fromMs toMs : Nat} (h : fromMs ≤ toMs) (hu : fromMs ≤ u64Max) :
    fromMs ≤ boundedTo timeframe fromMs toMs maxBars := by
  unfold boundedTo saturatingAdd
  split
  · refine le_min h ?_
    split
    · exact hu
    · exact Nat.le_add_right _ _
  · exact h

/-- A request asks for whole seconds up to the limit. -/
theorem boundedRequest_eq (s : BarRoute) (kind : ContinuityRequestKind) (announceGap : Bool)
    (fromMs toMs : Nat) :
    s.boundedRequest kind announceGap fromMs toMs =
      if requestStart fromMs = 0 ∨ requestStart (boundedTo s.timeframe fromMs toMs s.maxBackfillBars) <
          requestStart fromMs then none
      else some {
        request := makeGapRequest s.symbol s.timeframe fromMs toMs s.maxBackfillBars, kind, announceGap
        fromTimeMs := requestStart fromMs
        toTimeMs := requestStart (boundedTo s.timeframe fromMs toMs s.maxBackfillBars)
        requestedItems := min ((requestStart (boundedTo s.timeframe fromMs toMs s.maxBackfillBars) -
          requestStart fromMs) / s.timeframeMs + 1) u64Max } := rfl

/-- A range from `fromMs` on has a request. -/
theorem boundedRequest_some {s : BarRoute} (kind : ContinuityRequestKind) (announceGap : Bool) {fromMs toMs : Nat}
    (hfrom : 1000 ≤ fromMs) (hu : fromMs ≤ u64Max) (hle : fromMs ≤ toMs) :
    ∃ pending, s.boundedRequest kind announceGap fromMs toMs = some pending := by
  have hne := requestStart_ne_zero hfrom
  have hto := requestStart_mono (le_boundedTo s.timeframe s.maxBackfillBars hle hu)
  exact ⟨_, (boundedRequest_eq _ _ _ _ _).trans (if_neg (by omega))⟩

end BarRoute

end OptionX.MarketData
