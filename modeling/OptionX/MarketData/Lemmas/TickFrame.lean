import OptionX.MarketData.Recovery
import OptionX.MarketData.TickRoute

/-!
# What the bookkeeping of a tick route changes

Progress, trust and the overlap with history change watermarks, delivered observations and the buffer, and nothing
else.
-/

namespace OptionX.MarketData

theorem latestOf_le {latest bound : Nat} {times : List Nat} (h : latest ≤ bound)
    (ht : ∀ time ∈ times, time ≤ bound) : latestOf latest times ≤ bound := by
  induction times generalizing latest with
  | nil => exact h
  | cons time times ih =>
      exact ih (max_le h (ht time List.mem_cons_self)) fun x hx => ht x (List.mem_cons_of_mem _ hx)

namespace TickRoute

variable {P : Type}

/-- A tick that was held back. -/
def caughtUp (tick : Tick P) : Tick P := { tick with flags := tick.flags.markLive true }

@[simp] theorem caughtUp_timeMs (tick : Tick P) : (caughtUp tick).timeMs = tick.timeMs := rfl

def times (ticks : List (Tick P)) : List Nat := ticks.map (·.timeMs)

@[simp] theorem times_nil : times ([] : List (Tick P)) = [] := rfl
@[simp] theorem times_cons (tick : Tick P) (ticks : List (Tick P)) :
    times (tick :: ticks) = tick.timeMs :: times ticks := rfl
@[simp] theorem times_append (ticks ticks' : List (Tick P)) :
    times (ticks ++ ticks') = times ticks ++ times ticks' := List.map_append

/-- A gap splits a batch. -/
theorem findTickGap_eq {intervalMs previousTimeMs : Nat} {ticks : List (Tick P)}
    {gap : List (Tick P) × Nat × Tick P × List (Tick P)}
    (h : findTickGap intervalMs previousTimeMs ticks = some gap) :
    ticks = gap.1 ++ gap.2.2.1 :: gap.2.2.2 := by
  induction ticks generalizing previousTimeMs gap with
  | nil => cases h
  | cons tick ticks ih =>
      simp only [findTickGap] at h
      split at h
      · obtain ⟨g, hg, rfl⟩ := Option.map_eq_some_iff.mp h
        exact congrArg (tick :: ·) (ih hg)
      · split at h
        · cases h
          rfl
        · obtain ⟨g, hg, rfl⟩ := Option.map_eq_some_iff.mp h
          exact congrArg (tick :: ·) (ih hg)

theorem observeTicks_eq (s : TickRoute P) (ticks : List (Tick P)) :
    ∃ verified, ticks.foldl observeTick s = { s with
      lastObservedTimeMs := latestOf s.lastObservedTimeMs (times ticks)
      verifiedThroughTimeMs := verified } := by
  induction ticks generalizing s with
  | nil => exact ⟨s.verifiedThroughTimeMs, rfl⟩
  | cons tick ticks ih =>
      obtain ⟨w, hw⟩ := ih (s.observeTick tick)
      refine ⟨w, ?_⟩
      change ticks.foldl observeTick (s.observeTick tick) = _
      rw [hw]
      rfl

theorem markUnverified_eq (s : TickRoute P) (fromTimeMs : Nat) :
    s.markUnverified fromTimeMs =
      { s with unverifiedFromTimeMs := unresolvedWith s.unverifiedFromTimeMs fromTimeMs } := by
  unfold markUnverified unresolvedWith
  split
  · rfl
  · split <;> rfl

theorem recordVerifiedRange_eq (s : TickRoute P) (fromTimeMs toTimeMs : Nat) :
    ∃ verified unverified, s.recordVerifiedRange fromTimeMs toTimeMs = { s with
      verifiedThroughTimeMs := verified, unverifiedFromTimeMs := unverified } := by
  unfold recordVerifiedRange
  split
  · exact ⟨_, _, rfl⟩
  · split
    · exact ⟨_, _, rfl⟩
    · exact ⟨_, _, rfl⟩

/-- The bookkeeping of a finished request: a prefill that proves nothing ends. -/
theorem settleHistory_eq (s : TickRoute P) (pending : PendingTickContinuityRequest) (v : HistoryVerdict P) :
    ∃ verified unverified, s.settleHistory pending v = { s with
      initialPrefillPending := s.initialPrefillPending && (v.usable || pending.kind != .prefill)
      verifiedThroughTimeMs := verified, unverifiedFromTimeMs := unverified } := by
  unfold settleHistory
  cases hv : v.usable with
  | true =>
      obtain ⟨w, u, h⟩ := s.recordVerifiedRange_eq pending.fromTimeMs pending.toTimeMs
      refine ⟨w, u, ?_⟩
      rw [if_pos rfl, h, Bool.true_or, Bool.and_true]
  | false =>
      refine ⟨s.verifiedThroughTimeMs, unresolvedWith s.unverifiedFromTimeMs pending.fromTimeMs, ?_⟩
      rw [if_neg Bool.false_ne_true, markUnverified_eq, Bool.false_or]
      rfl

variable [BEq P]

theorem rememberDelivery_eq (s : TickRoute P) (ticks : List (Tick P)) :
    ∃ delivered observations, s.rememberDelivery ticks = { s with
      lastDeliveredTickTimeMs := delivered, lastDeliveredTickObservations := observations } := by
  unfold rememberDelivery
  dsimp only
  split
  · exact ⟨_, _, rfl⟩
  · exact ⟨_, _, rfl⟩

theorem recordTickProgress_eq (s : TickRoute P) (ticks : List (Tick P)) :
    ∃ verified delivered observations, s.recordTickProgress ticks = { s with
      lastObservedTimeMs := latestOf s.lastObservedTimeMs (times ticks)
      verifiedThroughTimeMs := verified
      lastDeliveredTickTimeMs := delivered, lastDeliveredTickObservations := observations } := by
  obtain ⟨w, hw⟩ := s.observeTicks_eq ticks
  obtain ⟨d, o, hd⟩ := (ticks.foldl observeTick s).rememberDelivery_eq ticks
  refine ⟨w, d, o, ?_⟩
  unfold recordTickProgress
  rw [hd, hw]

theorem mem_deduplicate {mode : TickDeduplicationMode} {seen ticks : List (Tick P)} {tick : Tick P}
    (h : tick ∈ deduplicateTickItems mode seen ticks) : tick ∈ ticks := by
  induction ticks generalizing seen with
  | nil => cases h
  | cons t ticks ih =>
      simp only [deduplicateTickItems] at h
      split at h
      · exact List.mem_cons_of_mem _ (ih h)
      · rcases List.mem_cons.mp h with rfl | h
        · exact List.mem_cons_self
        · exact List.mem_cons_of_mem _ (ih h)

/-- What a verdict brings has the times of the response. -/
theorem judge_times {s : TickRoute P} {pending : PendingTickContinuityRequest} {result : TickHistoryResult P}
    {tick : Tick P} (h : tick ∈ (s.judge pending result).items) : ∃ t ∈ result.ticks, tick.timeMs = t.timeMs := by
  unfold judge at h
  dsimp only at h
  split at h
  · obtain ⟨t, ht, rfl⟩ := List.mem_map.mp (mem_deduplicate h)
    exact ⟨t, ht, rfl⟩
  · cases h

/-- What is held back once history has brought `items`. -/
def withoutHistory (s : TickRoute P) (items : List (Tick P)) : TickRoute P :=
  { s with
    buffer := withoutObserved s.deduplicationMode items s.buffer
    bufferedItems := ((withoutObserved s.deduplicationMode items s.buffer).map (·.items.length)).sum }

theorem mem_withoutObserved {mode : TickDeduplicationMode} {history : List (Tick P)}
    {batches : List (TickDataBatch P)} {batch : TickDataBatch P} (h : batch ∈ withoutObserved mode history batches) :
    ∃ batch' ∈ batches, ∀ tick ∈ batch.items, tick ∈ batch'.items := by
  obtain ⟨batch', hb', rfl⟩ := List.mem_map.mp (List.mem_filter.mp h).1
  exact ⟨batch', hb', fun tick ht => (List.mem_filter.mp ht).1⟩

theorem mem_withoutDelivered {s : TickRoute P} {items : List (Tick P)} {tick : Tick P}
    (h : tick ∈ s.withoutDelivered items) : tick ∈ items := by
  unfold withoutDelivered at h
  split at h
  · exact h
  · exact (List.mem_filter.mp h).1

/-- History takes its observations out of the buffer, and those that are new are delivered. -/
theorem deliverHistory_eq (s : TickRoute P) (items : List (Tick P)) :
    ∃ new, (∀ tick ∈ new, tick ∈ items) ∧ ((s.deliverHistory items).1 = s ∧ items = [] ∨
      (s.deliverHistory items).1 = (s.withoutHistory items).recordTickProgress new) := by
  unfold deliverHistory
  split
  · rename_i h
    exact ⟨[], by simp, .inl ⟨rfl, List.isEmpty_iff.mp h⟩⟩
  · refine ⟨(s.withoutHistory items).withoutDelivered items, fun tick => mem_withoutDelivered, .inr ?_⟩
    change (if ((s.withoutHistory items).withoutDelivered items).isEmpty then (s.withoutHistory items, [], 0)
      else _ : TickRoute P × List (TickNotice P) × Nat).1 = _
    split
    · rename_i h
      rw [List.isEmpty_iff.mp h]
      rfl
    · rfl

end TickRoute

end OptionX.MarketData
