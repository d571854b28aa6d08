import OptionX.MarketData.BarRoute
import OptionX.MarketData.Recovery

/-!
# What the bookkeeping of a bar route changes

Progress and trust change the watermarks of a route and nothing else.
-/

namespace OptionX.MarketData

namespace BarRoute

def times (bars : List Bar) : List Nat := bars.map (·.timeMs)

@[simp] theorem times_nil : times [] = [] := rfl
@[simp] theorem times_cons (bar : Bar) (bars : List Bar) : times (bar :: bars) = bar.timeMs :: times bars := rfl
@[simp] theorem times_append (bars bars' : List Bar) : times (bars ++ bars') = times bars ++ times bars' :=
  List.map_append

theorem recordBarProgress_eq (s : BarRoute) (bars : List Bar) :
    ∃ verified, s.recordBarProgress bars = { s with
      lastObservedTimeMs := latestOf s.lastObservedTimeMs (times bars)
      verifiedThroughTimeMs := verified } := by
  induction bars generalizing s with
  | nil => exact ⟨s.verifiedThroughTimeMs, rfl⟩
  | cons bar bars ih =>
      have hbar : ∃ verified, s.observeBar bar = { s with
          lastObservedTimeMs := max s.lastObservedTimeMs bar.timeMs
          verifiedThroughTimeMs := verified } := by
        unfold observeBar
        dsimp only
        split
        · exact ⟨_, rfl⟩
        · exact ⟨_, rfl⟩
      obtain ⟨v, hv⟩ := hbar
      obtain ⟨w, hw⟩ := ih (s.observeBar bar)
      refine ⟨w, ?_⟩
      change (s.observeBar bar).recordBarProgress bars = _
      rw [hw, hv]
      rfl

theorem markUnverified_eq (s : BarRoute) (fromTimeMs : Nat) :
    s.markUnverified fromTimeMs =
      { s with unverifiedFromTimeMs := unresolvedWith s.unverifiedFromTimeMs fromTimeMs } := by
  unfold markUnverified unresolvedWith
  split
  · rfl
  · split <;> rfl

theorem recordVerifiedRange_eq (s : BarRoute) (fromTimeMs toTimeMs : Nat) (more : Bool) :
    ∃ verified unverified, s.recordVerifiedRange fromTimeMs toTimeMs more = { s with
      verifiedThroughTimeMs := verified, unverifiedFromTimeMs := unverified } := by
  unfold recordVerifiedRange
  split
  · exact ⟨_, _, rfl⟩
  · split
    · exact ⟨_, _, rfl⟩
    · exact ⟨_, _, rfl⟩

/-- The bookkeeping of a finished request ends a prefill, whatever it brought. -/
theorem settleHistory_eq (s : BarRoute) (pending : PendingContinuityRequest) (v : HistoryVerdict) :
    ∃ verified unverified, s.settleHistory pending v = { s with
      initialPrefillPending := s.initialPrefillPending && pending.kind != .prefill
      verifiedThroughTimeMs := verified, unverifiedFromTimeMs := unverified } := by
  have hprefill : (if pending.kind == .prefill then { s with initialPrefillPending := false } else s) =
      { s with initialPrefillPending := s.initialPrefillPending && pending.kind != .prefill } := by
    cases pending.kind with
    | prefill => rw [if_pos (by decide), show (ContinuityRequestKind.prefill != .prefill) = false from rfl, Bool.and_false]
    | gapBackfill => rw [if_neg (by decide), bne_iff_ne.mpr (by decide), Bool.and_true]
    | reconnectBackfill => rw [if_neg (by decide), bne_iff_ne.mpr (by decide), Bool.and_true]
  unfold settleHistory
  rw [hprefill]
  dsimp only
  split
  · split
    · exact ⟨_, _, markUnverified_eq _ _⟩
    · exact ⟨_, _, rfl⟩
  · split
    · exact ⟨_, _, rfl⟩
    · exact recordVerifiedRange_eq _ _ _ _

theorem deliverHistory_eq (s : BarRoute) (items : List Bar) :
    ∃ observed verified, (s.deliverHistory items).1 = { s with
      lastObservedTimeMs := observed, verifiedThroughTimeMs := verified } := by
  unfold deliverHistory
  split
  · exact ⟨_, _, rfl⟩
  · obtain ⟨v, hv⟩ := s.recordBarProgress_eq items
    exact ⟨_, v, hv⟩

end BarRoute

end OptionX.MarketData
