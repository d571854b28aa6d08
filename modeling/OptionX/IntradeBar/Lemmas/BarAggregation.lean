import OptionX.Lib.Arrival
import OptionX.Lib.Run
import OptionX.IntradeBar.BarAggregation

/-!
# Live bars are exact

What the bars that a subscription emits say of the ticks it has accepted. The last bar appended is always the
accumulator's current one, so the order of the bars decides what the accumulator may do next.
-/

namespace OptionX.IntradeBar

open Lib.Arrival (Earliest Latest)
open MarketData (u64Max)

variable {P V : Type} [LinearOrder P] [Zero P] [Midpoint P] [Add V]

def inBucket (sub : BarSubscription) (bucketMs : Nat) (ticks : List (Tick P V)) : List (Tick P V) :=
  ticks.filter (sub.bucketMs · == bucketMs)

/-- A bar is the aggregate of ticks in their order of arrival. -/
structure Summarizes (sub : BarSubscription) (ticks : List (Tick P V)) (bar : Bar P V) : Prop where
  high : (∃ t ∈ ticks, t.price sub.priceSource = bar.high) ∧ ∀ t ∈ ticks, t.price sub.priceSource ≤ bar.high
  low : (∃ t ∈ ticks, t.price sub.priceSource = bar.low) ∧ ∀ t ∈ ticks, bar.low ≤ t.price sub.priceSource
  opening : ∃ t, Earliest Tick.timestampMs ticks t ∧ bar.opening = t.price sub.priceSource
  close : ∃ t, Latest Tick.timestampMs ticks t ∧ bar.close = t.price sub.priceSource
  volume : ∃ v vs, ticks.map (·.volume) = v :: vs ∧ bar.volume = vs.foldl (· + ·) v

/-- The bars say what the ticks accepted so far are: they come in the order of their buckets, a bucket is closed
before a later one begins and stays closed, and the bar that closes it is exact. -/
structure Exact (sub : BarSubscription) (accepted : List (Tick P V)) (bars : List (Bar P V)) : Prop where
  grid : ∀ b ∈ bars, sub.timeframeMs ∣ b.timeMs
  order : bars.Pairwise fun a b => a.timeMs ≤ b.timeMs ∧ (a.flags.finalized = true → a.timeMs < b.timeMs)
  closed : ∀ pre b post, bars = pre ++ b :: post → ∀ a ∈ pre, a.timeMs < b.timeMs →
    ∃ f ∈ pre, f.flags.finalized = true ∧ f.timeMs = a.timeMs
  received : ∀ t ∈ accepted, ∃ b ∈ bars, b.timeMs = sub.bucketMs t
  summary : ∀ b ∈ bars, b.flags.finalized = true → Summarizes sub (inBucket sub b.timeMs accepted) b

/-- The accumulator against the ticks accepted and the bars appended so far. -/
structure Tracks (sub : BarSubscription) (s : BarAggregationState P V) (accepted : List (Tick P V))
    (bars : List (Bar P V)) : Prop where
  fresh : s.initialized = false → accepted = [] ∧ bars = []
  last : s.initialized = true → bars.getLast? = some s.current
  current : s.initialized = true → Summarizes sub (inBucket sub s.current.timeMs accepted) s.current
  first : s.initialized = true →
    ∃ t, Earliest Tick.timestampMs (inBucket sub s.current.timeMs accepted) t ∧ s.firstTickTimeMs = t.timestampMs
  final : s.initialized = true →
    ∃ t, Latest Tick.timestampMs (inBucket sub s.current.timeMs accepted) t ∧ s.lastTickTimeMs = t.timestampMs
  timed : ∀ t ∈ accepted, t.timestampMs ≠ 0

section

variable {sub : BarSubscription} {s : BarAggregationState P V} {accepted ticks : List (Tick P V)}
  {bars : List (Bar P V)} {bar : Bar P V} {t : Tick P V}

/-! ## Aggregates -/

omit [LinearOrder P] [Zero P] [Midpoint P] [Add V] in
theorem mem_inBucket {bucketMs : Nat} : t ∈ inBucket sub bucketMs ticks ↔ t ∈ ticks ∧ sub.bucketMs t = bucketMs := by
  rw [inBucket, List.mem_filter, beq_iff_eq]

omit [LinearOrder P] [Zero P] [Midpoint P] [Add V] in
theorem inBucket_snoc_self : inBucket sub (sub.bucketMs t) (ticks ++ [t]) = inBucket sub (sub.bucketMs t) ticks ++ [t] := by
  rw [inBucket, List.filter_append, List.filter_singleton, beq_self_eq_true]
  rfl

omit [LinearOrder P] [Zero P] [Midpoint P] [Add V] in
theorem inBucket_snoc_ne {bucketMs : Nat} (h : sub.bucketMs t ≠ bucketMs) :
    inBucket sub bucketMs (ticks ++ [t]) = inBucket sub bucketMs ticks := by
  rw [inBucket, List.filter_append, List.filter_singleton, beq_eq_false_iff_ne.mpr h]
  exact List.append_nil _

theorem Summarizes.finalize (h : Summarizes sub ticks bar) : Summarizes sub ticks bar.finalize :=
  ⟨h.high, h.low, h.opening, h.close, h.volume⟩

theorem Summarizes.opens (sub : BarSubscription) (t : Tick P V) : Summarizes sub [t] (sub.openBar t) where
  high := ⟨⟨t, List.mem_singleton_self t, rfl⟩, fun _ hy => List.mem_singleton.mp hy ▸ le_rfl⟩
  low := ⟨⟨t, List.mem_singleton_self t, rfl⟩, fun _ hy => List.mem_singleton.mp hy ▸ le_rfl⟩
  opening := ⟨t, .singleton _ t, rfl⟩
  close := ⟨t, .singleton _ t, rfl⟩
  volume := ⟨t.volume, [], rfl, rfl⟩

/-- A further tick of the bucket. -/
theorem Summarizes.update (h : Summarizes sub ticks s.current)
    (hfirst : ∃ x, Earliest Tick.timestampMs ticks x ∧ s.firstTickTimeMs = x.timestampMs)
    (hfinal : ∃ x, Latest Tick.timestampMs ticks x ∧ s.lastTickTimeMs = x.timestampMs)
    (htimed : ∀ x ∈ ticks, x.timestampMs ≠ 0) (t : Tick P V) :
    Summarizes sub (ticks ++ [t]) (sub.updateBar t s).current ∧
      (∃ x, Earliest Tick.timestampMs (ticks ++ [t]) x ∧ (sub.updateBar t s).firstTickTimeMs = x.timestampMs) ∧
      ∃ x, Latest Tick.timestampMs (ticks ++ [t]) x ∧ (sub.updateBar t s).lastTickTimeMs = x.timestampMs := by
  obtain ⟨x, hx, hfx⟩ := hfirst
  obtain ⟨y, hy, hly⟩ := hfinal
  obtain ⟨x', hx', hox⟩ := h.opening
  obtain ⟨y', hy', hcy⟩ := h.close
  have hx0 : s.firstTickTimeMs ≠ 0 := by
    obtain ⟨pre, post, heq, -⟩ := hx
    rw [hfx]
    exact htimed x (by rw [heq]; exact List.mem_append_right _ List.mem_cons_self)
  have hy0 : s.lastTickTimeMs ≠ 0 := by
    obtain ⟨pre, post, heq, -⟩ := hy
    rw [hly]
    exact htimed y (by rw [heq]; exact List.mem_append_right _ List.mem_cons_self)
  have hxx : x'.timestampMs = x.timestampMs := hx'.value_unique hx
  have hyy : y'.timestampMs = y.timestampMs := hy'.value_unique hy
  have hsnoc : ∀ z ∈ ticks, z ∈ ticks ++ [t] := fun z hz => List.mem_append_left _ hz
  have hself : t ∈ ticks ++ [t] := List.mem_append_right _ (List.mem_singleton_self t)
  refine ⟨⟨⟨?_, fun z hz => ?_⟩, ⟨?_, fun z hz => ?_⟩, ?_, ?_, ?_⟩, ?_, ?_⟩
  · obtain ⟨z, hz, hzp⟩ := h.high.1
    rcases max_choice s.current.high (t.price sub.priceSource) with hm | hm
    · exact ⟨z, hsnoc z hz, hzp.trans hm.symm⟩
    · exact ⟨t, hself, hm.symm⟩
  · rcases List.mem_append.mp hz with hz | hz
    · exact (h.high.2 z hz).trans (le_max_left _ _)
    · rw [List.mem_singleton.mp hz]
      exact le_max_right _ _
  · obtain ⟨z, hz, hzp⟩ := h.low.1
    rcases min_choice s.current.low (t.price sub.priceSource) with hm | hm
    · exact ⟨z, hsnoc z hz, hzp.trans hm.symm⟩
    · exact ⟨t, hself, hm.symm⟩
  · rcases List.mem_append.mp hz with hz | hz
    · exact (min_le_left _ _).trans (h.low.2 z hz)
    · rw [List.mem_singleton.mp hz]
      exact min_le_right _ _
  · by_cases hlt : t.timestampMs < s.firstTickTimeMs
    · refine ⟨t, hx'.replace ?_, ?_⟩
      · rw [hxx, ← hfx]
        exact hlt
      · simp [BarSubscription.updateBar, BarSubscription.markUpdated, hlt]
    · refine ⟨x', hx'.snoc ?_, ?_⟩
      · rw [hxx, ← hfx]
        exact not_lt.mp hlt
      · simp [BarSubscription.updateBar, BarSubscription.markUpdated, hlt, hx0, hox]
  · by_cases hle : s.lastTickTimeMs ≤ t.timestampMs
    · refine ⟨t, hy'.replace ?_, ?_⟩
      · rw [hyy, ← hly]
        exact hle
      · simp [BarSubscription.updateBar, BarSubscription.markUpdated, hle]
    · refine ⟨y', hy'.snoc ?_, ?_⟩
      · rw [hyy, ← hly]
        exact not_le.mp hle
      · simp [BarSubscription.updateBar, BarSubscription.markUpdated, hle, hy0, hcy]
  · obtain ⟨v, vs, hvs, hv⟩ := h.volume
    refine ⟨v, vs ++ [t.volume], ?_, ?_⟩
    · rw [List.map_append, hvs]
      rfl
    · rw [List.foldl_append, ← hv]
      rfl
  · by_cases hlt : t.timestampMs < s.firstTickTimeMs
    · exact ⟨t, hx.replace (hfx ▸ hlt), if_pos (.inr hlt)⟩
    · exact ⟨x, hx.snoc (hfx ▸ not_lt.mp hlt), (if_neg fun h => h.elim hx0 hlt).trans hfx⟩
  · by_cases hle : s.lastTickTimeMs ≤ t.timestampMs
    · exact ⟨t, hy.replace (hly ▸ hle), if_pos (.inr hle)⟩
    · exact ⟨y, hy.snoc (hly ▸ not_le.mp hle), (if_neg fun h => h.elim hy0 hle).trans hly⟩

/-! ## Bars in order -/

/-- The last bar has the latest bucket, and the buckets that are closed are known from it. -/
theorem Exact.le_last (h : Exact sub accepted bars) {last : Bar P V} (hl : bars.getLast? = some last) :
    ∀ b ∈ bars, b.timeMs ≤ last.timeMs ∧
      (b.flags.finalized = true → b.timeMs = last.timeMs → last.flags.finalized = true) := by
  obtain ⟨pre, rfl⟩ := List.getLast?_eq_some_iff.mp hl
  intro b hb
  rcases List.mem_append.mp hb with hb | hb
  · obtain ⟨h1, h2⟩ := (List.pairwise_append.mp h.order).2.2 b hb last (List.mem_singleton_self last)
    refine ⟨h1, fun hf heq => ?_⟩
    have hlt := h2 hf
    omega
  · rw [List.mem_singleton.mp hb]
    exact ⟨le_rfl, fun hf _ => hf⟩

/-- The buckets before the last one are closed. -/
theorem Exact.closed_before (h : Exact sub accepted bars) {last : Bar P V} (hl : bars.getLast? = some last) :
    ∀ a ∈ bars, a.timeMs < last.timeMs → ∃ f ∈ bars, f.flags.finalized = true ∧ f.timeMs = a.timeMs := by
  obtain ⟨pre, rfl⟩ := List.getLast?_eq_some_iff.mp hl
  intro a ha hlt
  have ha' : a ∈ pre := by
    rcases List.mem_append.mp ha with ha | ha
    · exact ha
    · rw [List.mem_singleton.mp ha] at hlt
      exact absurd hlt (lt_irrefl _)
  obtain ⟨f, hf, hff, hft⟩ := h.closed pre last [] rfl a ha' hlt
  exact ⟨f, List.mem_append_left _ hf, hff, hft⟩

/-- Once the last bar is closed, every bucket before a later one is. -/
theorem Exact.before_next (h : Exact sub accepted bars) {last : Bar P V} (hl : bars.getLast? = some last)
    (hf : last.flags.finalized = true) {bucketMs : Nat} (hlt : last.timeMs < bucketMs) :
    ∀ b ∈ bars, b.timeMs < bucketMs ∧ ∃ f ∈ bars, f.flags.finalized = true ∧ f.timeMs = b.timeMs := by
  intro b hb
  have hle := (h.le_last hl b hb).1
  refine ⟨hle.trans_lt hlt, ?_⟩
  rcases hle.lt_or_eq with hblt | heq
  · exact h.closed_before hl b hb hblt
  · exact ⟨last, List.mem_of_getLast? hl, hf, heq.symm⟩

/-- A bar at or after the last one, whose bucket is open or new, comes next. -/
theorem Exact.snoc (h : Exact sub accepted bars) {accepted' : List (Tick P V)} {bar : Bar P V}
    (hgrid : sub.timeframeMs ∣ bar.timeMs)
    (hlater : ∀ a ∈ bars, a.timeMs ≤ bar.timeMs ∧ (a.flags.finalized = true → a.timeMs < bar.timeMs) ∧
      (a.timeMs < bar.timeMs → ∃ f ∈ bars, f.flags.finalized = true ∧ f.timeMs = a.timeMs))
    (hreceived : ∀ t ∈ accepted', (∃ b ∈ bars, b.timeMs = sub.bucketMs t) ∨ sub.bucketMs t = bar.timeMs)
    (hsummary : ∀ b ∈ bars, b.flags.finalized = true → Summarizes sub (inBucket sub b.timeMs accepted') b)
    (hbar : bar.flags.finalized = true → Summarizes sub (inBucket sub bar.timeMs accepted') bar) :
    Exact sub accepted' (bars ++ [bar]) where
  grid b hb := by
    rcases List.mem_append.mp hb with hb | hb
    · exact h.grid b hb
    · rw [List.mem_singleton.mp hb]
      exact hgrid
  order := by
    refine List.pairwise_append.mpr ⟨h.order, List.pairwise_singleton _ _, fun a ha b hb => ?_⟩
    rw [List.mem_singleton.mp hb]
    exact ⟨(hlater a ha).1, (hlater a ha).2.1⟩
  closed pre b post heq a ha hlt := by
    rcases Lib.Arrival.split_snoc heq with ⟨-, rfl, rfl⟩ | ⟨post', -, heq'⟩
    · exact (hlater a ha).2.2 hlt
    · exact h.closed pre b post' heq' a ha hlt
  received t ht := by
    rcases hreceived t ht with ⟨b, hb, heq⟩ | heq
    · exact ⟨b, List.mem_append_left _ hb, heq⟩
    · exact ⟨bar, List.mem_append_right _ (List.mem_singleton_self bar), heq.symm⟩
  summary b hb hf := by
    rcases List.mem_append.mp hb with hb | hb
    · exact hsummary b hb hf
    · rw [List.mem_singleton.mp hb] at hf ⊢
      exact hbar hf

omit [LinearOrder P] [Zero P] [Midpoint P] [Add V] in
theorem bucketMs_dvd (sub : BarSubscription) (t : Tick P V) : sub.timeframeMs ∣ sub.bucketMs t :=
  Dvd.intro_left _ rfl

/-- The accumulator's current bar is closed. -/
theorem Tracks.finalize (h : Tracks sub s accepted bars) (he : Exact sub accepted bars)
    (hinit : s.initialized = true) (hopen : s.current.flags.finalized = false) :
    Tracks sub { s with current := s.current.finalize } accepted (bars ++ [s.current.finalize]) ∧
      Exact sub accepted (bars ++ [s.current.finalize]) := by
  have hlast := h.last hinit
  have hle := he.le_last hlast
  have hmem : s.current ∈ bars := List.mem_of_getLast? hlast
  refine ⟨⟨fun hi => ?_, fun _ => List.getLast?_concat, fun _ => (h.current hinit).finalize,
    fun _ => h.first hinit, fun _ => h.final hinit, h.timed⟩, ?_⟩
  · rw [show s.initialized = false from hi] at hinit
    cases hinit
  · refine he.snoc (he.grid s.current hmem : _) (fun a ha => ⟨(hle a ha).1, fun hf => ?_, fun hlt => ?_⟩)
      (fun t ht => .inl (he.received t ht)) he.summary fun _ => (h.current hinit).finalize
    · rcases (hle a ha).1.lt_or_eq with hlt | heq
      · exact hlt
      · rw [(hle a ha).2 hf heq] at hopen
        cases hopen
    · exact he.closed_before hlast a ha hlt

/-- The first tick of a bucket opens a bar, when every bar before it is of an earlier bucket that is closed. -/
theorem Tracks.opens (he : Exact sub accepted bars) (htimed : ∀ x ∈ accepted, x.timestampMs ≠ 0)
    (h0 : t.timestampMs ≠ 0) (hbefore : ∀ b ∈ bars, b.timeMs < sub.bucketMs t ∧
      ∃ f ∈ bars, f.flags.finalized = true ∧ f.timeMs = b.timeMs) :
    Tracks sub ⟨sub.openBar t, t.timestampMs, t.timestampMs, true⟩ (accepted ++ [t]) (bars ++ [sub.openBar t]) ∧
      Exact sub (accepted ++ [t]) (bars ++ [sub.openBar t]) := by
  have hnew : inBucket sub (sub.bucketMs t) (accepted ++ [t]) = [t] := by
    have hnone : inBucket sub (sub.bucketMs t) accepted = [] := by
      refine List.eq_nil_iff_forall_not_mem.mpr fun x hx => ?_
      obtain ⟨hx, heq⟩ := mem_inBucket.mp hx
      obtain ⟨b, hb, hbt⟩ := he.received x hx
      have hlt := (hbefore b hb).1
      omega
    rw [inBucket_snoc_self, hnone, List.nil_append]
  refine ⟨⟨fun hi => (by cases hi), fun _ => List.getLast?_concat, fun _ => ?_, fun _ => ⟨t, ?_, rfl⟩,
    fun _ => ⟨t, ?_, rfl⟩, fun x hx => ?_⟩, ?_⟩
  · exact hnew.symm ▸ Summarizes.opens sub t
  · exact hnew.symm ▸ Earliest.singleton _ t
  · exact hnew.symm ▸ Latest.singleton _ t
  · rcases List.mem_append.mp hx with hx | hx
    · exact htimed x hx
    · rw [List.mem_singleton.mp hx]
      exact h0
  · refine he.snoc (bucketMs_dvd sub t) (fun a ha => ?_) (fun x hx => ?_) (fun b hb hf => ?_) fun hf => (by cases hf)
    · obtain ⟨h1, h2⟩ := hbefore a ha
      exact ⟨h1.le, fun _ => h1, fun _ => h2⟩
    · rcases List.mem_append.mp hx with hx | hx
      · exact .inl (he.received x hx)
      · rw [List.mem_singleton.mp hx]
        exact .inr rfl
    · rw [inBucket_snoc_ne (hbefore b hb).1.ne']
      exact he.summary b hb hf

/-- A further tick of the current bucket, which is still open. -/
theorem Tracks.updates (h : Tracks sub s accepted bars) (he : Exact sub accepted bars)
    (hinit : s.initialized = true) (hopen : s.current.flags.finalized = false)
    (hbucket : sub.bucketMs t = s.current.timeMs) (h0 : t.timestampMs ≠ 0) :
    Tracks sub (sub.updateBar t s) (accepted ++ [t]) (bars ++ [(sub.updateBar t s).current]) ∧
      Exact sub (accepted ++ [t]) (bars ++ [(sub.updateBar t s).current]) := by
  have hlast := h.last hinit
  have hle := he.le_last hlast
  have hmem : s.current ∈ bars := List.mem_of_getLast? hlast
  have hnew : inBucket sub s.current.timeMs (accepted ++ [t]) = inBucket sub s.current.timeMs accepted ++ [t] := by
    rw [← hbucket]
    exact inBucket_snoc_self
  obtain ⟨h1, h2, h3⟩ := (h.current hinit).update (h.first hinit) (h.final hinit)
    (fun x hx => h.timed x (mem_inBucket.mp hx).1) t
  rw [← hnew] at h1 h2 h3
  have hbefore : ∀ a ∈ bars, a.flags.finalized = true → a.timeMs < s.current.timeMs := by
    intro a ha hf
    rcases (hle a ha).1.lt_or_eq with hlt | heq
    · exact hlt
    · rw [(hle a ha).2 hf heq] at hopen
      cases hopen
  refine ⟨⟨fun hi => ?_, fun _ => List.getLast?_concat, fun _ => h1, fun _ => h2, fun _ => h3, fun x hx => ?_⟩, ?_⟩
  · rw [show s.initialized = false from hi] at hinit
    cases hinit
  · rcases List.mem_append.mp hx with hx | hx
    · exact h.timed x hx
    · rw [List.mem_singleton.mp hx]
      exact h0
  · refine he.snoc (he.grid s.current hmem : _) (fun a ha => ⟨(hle a ha).1, hbefore a ha, fun hlt => ?_⟩) (fun x hx => ?_)
      (fun b hb hf => ?_) fun _ => h1
    · exact he.closed_before hlast a ha hlt
    · rcases List.mem_append.mp hx with hx | hx
      · exact .inl (he.received x hx)
      · rw [List.mem_singleton.mp hx]
        exact .inr hbucket
    · have hlt := hbefore b hb hf
      rw [inBucket_snoc_ne (by omega)]
      exact he.summary b hb hf

/-! ## Steps -/

/-- A tick that comes too late for the bars: its bucket is earlier than another's, or closed. -/
def Late (sub : BarSubscription) (bars : List (Bar P V)) (t : Tick P V) : Prop :=
  ∃ b ∈ bars, sub.bucketMs t < b.timeMs ∨ sub.bucketMs t = b.timeMs ∧ b.flags.finalized = true

/-- A tick that says nothing of a price at a time. -/
def Unusable (sub : BarSubscription) (t : Tick P V) : Prop :=
  t.initialized = false ∨ t.timestampMs = 0 ∨ t.price sub.priceSource = 0

/-- The accumulator and the pending bars stay as they are. -/
def BarSubscription.Drops (sub : BarSubscription) (s : BarAggregationState P V) (t : Tick P V) : Prop :=
  sub.appendBarUpdates t s = (s, [])

/-- What a tick does. -/
inductive Appended (sub : BarSubscription) (s : BarAggregationState P V) (t : Tick P V) :
    BarAggregationState P V × List (Bar P V) → Prop
  | unusable : Unusable sub t → Appended sub s t (s, [])
  | late : ¬ Unusable sub t → s.initialized = true → sub.bucketMs t < s.current.timeMs ∨
      sub.bucketMs t = s.current.timeMs ∧ s.current.flags.finalized = true → Appended sub s t (s, [])
  | opens : ¬ Unusable sub t → (s.initialized = true → s.current.timeMs < sub.bucketMs t) →
      (s.initialized = true → s.current.flags.finalized = true) →
      Appended sub s t (⟨sub.openBar t, t.timestampMs, t.timestampMs, true⟩, [sub.openBar t])
  | closes : ¬ Unusable sub t → s.initialized = true → s.current.timeMs < sub.bucketMs t →
      s.current.flags.finalized = false →
      Appended sub s t (⟨sub.openBar t, t.timestampMs, t.timestampMs, true⟩, [s.current.finalize, sub.openBar t])
  | updates : ¬ Unusable sub t → s.initialized = true → sub.bucketMs t = s.current.timeMs →
      s.current.flags.finalized = false → Appended sub s t (sub.updateBar t s, [(sub.updateBar t s).current])

theorem appended (sub : BarSubscription) (s : BarAggregationState P V) (t : Tick P V) :
    Appended sub s t (sub.appendBarUpdates t s) := by
  by_cases h1 : t.initialized = true
  swap
  · simpa [BarSubscription.appendBarUpdates, h1] using Appended.unusable (s := s) (.inl (Bool.eq_false_iff.mpr h1))
  by_cases h2 : t.timestampMs = 0
  · simpa [BarSubscription.appendBarUpdates, h2] using Appended.unusable (s := s) (.inr (.inl h2))
  by_cases h3 : t.price sub.priceSource = 0
  · simpa [BarSubscription.appendBarUpdates, h3] using Appended.unusable (s := s) (.inr (.inr h3))
  have hu : ¬ Unusable sub t := by simp [Unusable, h1, h2, h3]
  by_cases hi : s.initialized = true
  swap
  · simpa [BarSubscription.appendBarUpdates, h1, h2, h3, hi] using
      Appended.opens hu (fun h => absurd h hi) fun h => absurd h hi
  rcases lt_trichotomy (sub.bucketMs t) s.current.timeMs with hlt | heq | hgt
  · simpa [BarSubscription.appendBarUpdates, h1, h2, h3, hi, hlt] using Appended.late hu hi (.inl hlt)
  · cases hf : s.current.flags.finalized with
    | true =>
        simpa [BarSubscription.appendBarUpdates, h1, h2, h3, hi, hf, heq] using Appended.late hu hi (.inr ⟨heq, hf⟩)
    | false =>
        simpa [BarSubscription.appendBarUpdates, h1, h2, h3, hi, hf, heq] using Appended.updates hu hi heq hf
  · cases hf : s.current.flags.finalized with
    | true =>
        simpa [BarSubscription.appendBarUpdates, h1, h2, h3, hi, hf, hgt.not_gt, hgt.ne, hgt.ne'] using
          Appended.opens hu (fun _ => hgt) fun _ => hf
    | false =>
        simpa [BarSubscription.appendBarUpdates, h1, h2, h3, hi, hf, hgt.not_gt, hgt.ne, hgt.ne'] using
          Appended.closes hu hi hgt hf

/-- A tick is late for the bars when it is late for the last of them. -/
theorem Tracks.late_iff (h : Tracks sub s accepted bars) (he : Exact sub accepted bars) :
    Late sub bars t ↔ s.initialized = true ∧ (sub.bucketMs t < s.current.timeMs ∨
      sub.bucketMs t = s.current.timeMs ∧ s.current.flags.finalized = true) := by
  cases hi : s.initialized with
  | false =>
      rw [(h.fresh hi).2]
      simp [Late]
  | true =>
      have hlast := h.last hi
      refine ⟨fun ⟨b, hb, hlate⟩ => ⟨rfl, ?_⟩, fun ⟨_, hlate⟩ => ⟨s.current, List.mem_of_getLast? hlast, hlate⟩⟩
      obtain ⟨hle, hclosed⟩ := he.le_last hlast b hb
      rcases hlate with hlt | ⟨heq, hf⟩
      · exact .inl (hlt.trans_le hle)
      · rcases hle.lt_or_eq with hlt | heq'
        · exact .inl (heq.trans_lt hlt)
        · exact .inr ⟨heq.trans heq', hclosed hf heq'⟩

/-- A tick is dropped when it is unusable or late, and for no other reason. -/
theorem Tracks.drops_iff (h : Tracks sub s accepted bars) (he : Exact sub accepted bars) :
    sub.Drops s t ↔ Unusable sub t ∨ Late sub bars t := by
  rw [h.late_iff he, BarSubscription.Drops]
  have hcases := appended sub s t
  generalize sub.appendBarUpdates t s = r at hcases ⊢
  cases hcases with
  | unusable hu => simp [hu]
  | late hu hi hlate => simp [hi, hlate]
  | opens hu hlater hclosed =>
      refine ⟨fun heq => (by cases congrArg Prod.snd heq), fun hor => ?_⟩
      rcases hor with hor | ⟨hi, hor⟩
      · exact absurd hor hu
      · have := hlater hi
        omega
  | closes hu hi hlater hopen =>
      refine ⟨fun heq => (by cases congrArg Prod.snd heq), fun hor => ?_⟩
      rcases hor with hor | ⟨-, hor⟩
      · exact absurd hor hu
      · omega
  | updates hu hi heq hopen =>
      refine ⟨fun heq => (by cases congrArg Prod.snd heq), fun hor => ?_⟩
      rcases hor with hor | ⟨-, hor | ⟨-, hf⟩⟩
      · exact absurd hor hu
      · omega
      · rw [hf] at hopen
        cases hopen

/-- The ticks of a price update that are not dropped. -/
def acceptedTicks (sub : BarSubscription) (s : BarAggregationState P V) : List (Tick P V) → List (Tick P V)
  | [] => []
  | t :: ts =>
      (if (sub.appendBarUpdates t s).2.isEmpty then [] else [t]) ++
        acceptedTicks sub (sub.appendBarUpdates t s).1 ts

theorem Tracks.append (h : Tracks sub s accepted bars) (he : Exact sub accepted bars) (t : Tick P V) :
    Tracks sub (sub.appendBarUpdates t s).1
        (accepted ++ if (sub.appendBarUpdates t s).2.isEmpty then [] else [t])
        (bars ++ (sub.appendBarUpdates t s).2) ∧
      Exact sub (accepted ++ if (sub.appendBarUpdates t s).2.isEmpty then [] else [t])
        (bars ++ (sub.appendBarUpdates t s).2) := by
  have hcases := appended sub s t
  generalize sub.appendBarUpdates t s = r at hcases ⊢
  cases hcases with
  | unusable _ => simpa using ⟨h, he⟩
  | late _ _ _ => simpa using ⟨h, he⟩
  | opens hu hlater hclosed =>
      refine Tracks.opens he h.timed (fun h0 => hu (.inr (.inl h0))) fun b hb => ?_
      cases hi : s.initialized with
      | false =>
          rw [(h.fresh hi).2] at hb
          cases hb
      | true =>
          exact he.before_next (h.last hi) (hclosed hi) (hlater hi) b hb
  | closes hu hi hlater hopen =>
      obtain ⟨h', he'⟩ := h.finalize he hi hopen
      have hnext := Tracks.opens he' h.timed (fun h0 => hu (.inr (.inl h0))) fun b hb =>
        he'.before_next (h'.last hi) rfl hlater b hb
      simpa using hnext
  | updates hu hi heq hopen => exact h.updates he hi hopen heq fun h0 => hu (.inr (.inl h0))

theorem Tracks.appends (h : Tracks sub s accepted bars) (he : Exact sub accepted bars) (ticks : List (Tick P V))
    (pending : List (Bar P V)) :
    ∃ added, ticks.foldl (BarFeed.append sub) ⟨s, pending⟩ =
        ⟨(ticks.foldl (BarFeed.append sub) ⟨s, pending⟩).state, pending ++ added⟩ ∧
      Tracks sub (ticks.foldl (BarFeed.append sub) ⟨s, pending⟩).state
        (accepted ++ acceptedTicks sub s ticks) (bars ++ added) ∧
      Exact sub (accepted ++ acceptedTicks sub s ticks) (bars ++ added) := by
  induction ticks generalizing s accepted bars pending with
  | nil => exact ⟨[], by simp, by simpa [acceptedTicks] using h, by simpa [acceptedTicks] using he⟩
  | cons t ts ih =>
      obtain ⟨h', he'⟩ := h.append he t
      obtain ⟨added, hpending, htracks, hexact⟩ := ih h' he' (pending ++ (sub.appendBarUpdates t s).2)
      refine ⟨(sub.appendBarUpdates t s).2 ++ added, ?_, ?_, ?_⟩
      · rw [← List.append_assoc]
        exact hpending
      · rw [acceptedTicks, ← List.append_assoc, ← List.append_assoc]
        exact htracks
      · rw [acceptedTicks, ← List.append_assoc, ← List.append_assoc]
        exact hexact

omit [LinearOrder P] [Zero P] [Midpoint P] [Add V] in
theorem finalizeElapsedBar_some {nowMs : Nat} {s' : BarAggregationState P V}
    (h : sub.finalizeElapsedBar nowMs s = some s') :
    s.initialized = true ∧ s.current.flags.finalized = false ∧ s' = { s with current := s.current.finalize } := by
  unfold BarSubscription.finalizeElapsedBar at h
  split at h
  · cases h
  · next hopen =>
    simp only [Bool.or_eq_true, Bool.not_eq_true', not_or, Bool.not_eq_false, Bool.not_eq_true] at hopen
    split at h
    · cases h
    · split at h
      · cases h
      · exact ⟨hopen.1, hopen.2, (Option.some.inj h).symm⟩

omit [LinearOrder P] [Zero P] [Midpoint P] [Add V] in
/-- A bar stays open only while the clock is before its end. -/
theorem finalizeElapsedBar_none {nowMs : Nat} (hnow : nowMs ≤ u64Max) (h : sub.finalizeElapsedBar nowMs s = none)
    (hinit : s.initialized = true) (hend : s.current.timeMs + sub.timeframeMs ≤ nowMs) :
    s.current.flags.finalized = true := by
  unfold BarSubscription.finalizeElapsedBar at h
  rw [hinit] at h
  simp only [Bool.not_true, Bool.false_or] at h
  split at h
  · assumption
  · split at h
    · omega
    · split at h
      · omega
      · cases h

/-- After a `process` cycle the buckets that have ended on its clock are closed. -/
theorem Tracks.elapse (h : Tracks sub s accepted bars) (he : Exact sub accepted bars) {nowMs : Nat}
    (hnow : nowMs ≤ u64Max) :
    ∀ t ∈ accepted, sub.bucketMs t + sub.timeframeMs ≤ nowMs →
      ∃ b ∈ bars ++ (sub.finalizeElapsedBar nowMs s).toList.map (·.current),
        b.timeMs = sub.bucketMs t ∧ b.flags.finalized = true := by
  intro t ht hend
  obtain ⟨b, hb, hbt⟩ := he.received t ht
  have hinit : s.initialized = true := by
    cases hi : s.initialized with
    | true => rfl
    | false =>
        rw [(h.fresh hi).1] at ht
        cases ht
  have hlast := h.last hinit
  have hle := (he.le_last hlast b hb).1
  rcases hle.lt_or_eq with hlt | heq
  · obtain ⟨f, hf, hff, hft⟩ := he.closed_before hlast b hb hlt
    exact ⟨f, List.mem_append_left _ hf, hft.trans hbt, hff⟩
  · cases hs : sub.finalizeElapsedBar nowMs s with
    | none =>
        have hfin := finalizeElapsedBar_none hnow hs hinit (by omega)
        exact ⟨s.current, List.mem_append_left _ (List.mem_of_getLast? hlast), by omega, hfin⟩
    | some s' =>
        obtain ⟨-, -, rfl⟩ := finalizeElapsedBar_some hs
        exact ⟨s.current.finalize, List.mem_append_right _ (List.mem_singleton_self _), heq.symm.trans hbt, rfl⟩

end

end OptionX.IntradeBar
