import Mathlib

/-!
# Days of a local clock

A clock gives a reading at each instant, and an instant for each reading. The day of an instant reaches from the instant
of the last boundary up to its reading to the instant of the next one. Where the clock passes each boundary once, at the
instant that is given for it, days partition the line of instants.
-/

namespace Lib.Clock

variable {reading instant : Int → Int} {period : Int} {t s : Int} {T D B : Int → Prop}

/-- The last multiple of the period up to a reading. -/
def boundary (period x : Int) : Int := x - x % period

theorem boundary_eq_mul (period x : Int) : boundary period x = period * (x / period) := by
  rw [boundary, Int.emod_def]
  omega

theorem boundary_le (h : 0 < period) (x : Int) : boundary period x ≤ x := by
  have := Int.emod_nonneg x h.ne'
  unfold boundary
  omega

theorem lt_boundary_add (h : 0 < period) (x : Int) : x < boundary period x + period := by
  have := Int.emod_lt_of_pos x h
  unfold boundary
  omega

theorem dvd_boundary (period x : Int) : period ∣ boundary period x := ⟨_, boundary_eq_mul period x⟩

/-- Boundaries up to a reading are boundaries up to its last one. -/
theorem le_boundary {m x : Int} (h : 0 < period) (hm : period ∣ m) (hle : m ≤ x) : m ≤ boundary period x := by
  obtain ⟨k, rfl⟩ := hm
  rw [boundary_eq_mul]
  have hk : k ≤ x / period := (Int.le_ediv_iff_mul_le h).mpr (by rwa [mul_comm])
  exact Int.mul_le_mul_of_nonneg_left hk h.le

/-- Boundaries behind a reading lie at least one period behind its last one. -/
theorem boundary_add_le {m x : Int} (h : 0 < period) (hm : period ∣ m) (hlt : x < m) : boundary period x + period ≤ m := by
  obtain ⟨k, rfl⟩ := hm
  rw [boundary_eq_mul]
  have hk : x / period < k := (Int.ediv_lt_iff_lt_mul h).mpr (by rwa [mul_comm])
  have hle := Int.mul_le_mul_of_nonneg_left (show x / period + 1 ≤ k by omega) h.le
  rwa [mul_add, mul_one] at hle

theorem boundary_of_dvd {m : Int} (hm : period ∣ m) : boundary period m = m := by
  rw [boundary, Int.emod_eq_zero_of_dvd hm, sub_zero]

/-! ## Days -/

/-- The instant of the boundary before the reading of `t`. -/
def start (reading instant : Int → Int) (period t : Int) : Int := instant (boundary period (reading t))

def next (reading instant : Int → Int) (period t : Int) : Int := instant (boundary period (reading t) + period)

/-- Days as half-open spans that follow one another, for the instants of `T`. -/
structure Partitions (start next : Int → Int) (T : Int → Prop) : Prop where
  within : ∀ t, T t → start t ≤ t ∧ t < next t
  starts : ∀ t, T t → start (next t) = next t
  sameNext : ∀ t s, T t → T s → start t ≤ s → s < next t → next s = next t
  monotone : ∀ t s, T t → T s → t ≤ s → start t ≤ start s

/-- At the instants of `D`, the clock has passed a boundary of `B` from the instant on that is given for it. -/
def Crosses (reading instant : Int → Int) (D B : Int → Prop) : Prop :=
  ∀ t m, D t → B m → (reading t < m ↔ t < instant m)

/-- The days of `T` are looked at through the instants of `D` and the boundaries of `B`. -/
structure Spans (reading instant : Int → Int) (period : Int) (T D B : Int → Prop) : Prop where
  instants : ∀ t, T t → D t
  start : ∀ t, T t → B (boundary period (reading t)) ∧ D (start reading instant period t)
  next : ∀ t, T t → B (boundary period (reading t) + period) ∧ D (next reading instant period t) ∧
    D (next reading instant period t - 1) ∧ B (boundary period (reading (next reading instant period t)))

/-- The instant that is given for a boundary is the start of its own day. -/
theorem start_of_boundary {m : Int} (hperiod : 0 < period) (h : Crosses reading instant D B) (hdvd : period ∣ m)
    (hm : B m) (hD : D (instant m)) (hD' : D (instant m - 1)) (hB : B (boundary period (reading (instant m)))) :
    start reading instant period (instant m) = instant m := by
  -- there the clock has passed the boundary, and one instant earlier it had not
  have hreading : m ≤ reading (instant m) := by
    have hcross := h _ m hD hm
    omega
  have hlast := le_boundary hperiod hdvd hreading
  have hbefore : reading (instant m - 1) < m := (h _ m hD' hm).mpr (sub_one_lt _)
  have hle : instant (boundary period (reading (instant m))) ≤ instant m := by
    have hcross := h _ _ hD hB
    have := boundary_le hperiod (reading (instant m))
    omega
  have hge : instant m - 1 < instant (boundary period (reading (instant m))) :=
    (h _ _ hD' hB).mp (hbefore.trans_le hlast)
  rw [start]
  omega

/-- Where the clock crosses its boundaries, days are a partition. -/
theorem partitions (hperiod : 0 < period) (hspans : Spans reading instant period T D B)
    (h : Crosses reading instant D B) : Partitions (start reading instant period) (next reading instant period) T := by
  have hreach : ∀ t, T t → instant (boundary period (reading t)) ≤ t := by
    intro t ht
    have hcross := h t _ (hspans.instants t ht) (hspans.start t ht).1
    have := boundary_le hperiod (reading t)
    omega
  have hend : ∀ t, T t → t < instant (boundary period (reading t) + period) := by
    intro t ht
    have hcross := h t _ (hspans.instants t ht) (hspans.next t ht).1
    have := lt_boundary_add hperiod (reading t)
    omega
  refine ⟨fun t ht => ⟨hreach t ht, hend t ht⟩, fun t ht => ?_, fun t s ht hs hle hlt => ?_, fun t s ht hs hle => ?_⟩
  · obtain ⟨hB, hD, hD', hB'⟩ := hspans.next t ht
    exact start_of_boundary hperiod h (Int.dvd_add (dvd_boundary _ _) (dvd_refl _)) hB hD hD' hB'
  · have hfirst := (h s _ (hspans.instants s hs) (hspans.start t ht).1).not.mpr (not_lt.mpr hle)
    have hlast := (h s _ (hspans.instants s hs) (hspans.next t ht).1).mpr hlt
    have hge := le_boundary hperiod (dvd_boundary period (reading t)) (not_lt.mp hfirst)
    have hle' := boundary_add_le hperiod (Int.dvd_add (dvd_boundary period (reading t)) (dvd_refl _)) hlast
    have hsame : boundary period (reading s) = boundary period (reading t) := by omega
    rw [next, next, hsame]
  · have hs' : boundary period (reading t) ≤ reading s := by
      have hcross := h s _ (hspans.instants s hs) (hspans.start t ht).1
      have := hreach t ht
      omega
    have hle' := le_boundary hperiod (dvd_boundary period (reading t)) hs'
    have hback := h _ _ (hspans.start s hs).2 (hspans.start t ht).1
    have hstart := h _ _ (hspans.start s hs).2 (hspans.start s hs).1
    have : ¬ start reading instant period s < instant (boundary period (reading s)) := lt_irrefl _
    have : start reading instant period t = instant (boundary period (reading t)) := rfl
    omega

/-- Where later boundaries are not given for earlier instants, a clock whose days contain their instants crosses its
boundaries. -/
theorem crosses (hperiod : 0 < period) (hmono : ∀ m m', B m → B m' → m ≤ m' → instant m ≤ instant m')
    (hdvd : ∀ m, B m → period ∣ m)
    (hB : ∀ t, T t → B (boundary period (reading t)) ∧ B (boundary period (reading t) + period))
    (h : ∀ t, T t → start reading instant period t ≤ t ∧ t < next reading instant period t) :
    Crosses reading instant T B := by
  intro t m ht hm
  obtain ⟨hle, hlt⟩ := h t ht
  obtain ⟨hfirst, hlast⟩ := hB t ht
  constructor
  · intro hbefore
    exact hlt.trans_le (hmono _ _ hlast hm (boundary_add_le hperiod (hdvd m hm) hbefore))
  · intro hbefore
    by_contra hafter
    have hback := hmono _ _ hm hfirst (le_boundary hperiod (hdvd m hm) (not_lt.mp hafter))
    exact absurd (hback.trans hle) hbefore.not_ge

/-- Functions that agree where the days are looked at. -/
theorem Partitions.congr {first last first' last' : Int → Int} (h : Partitions first last T)
    (hfirst : ∀ t, T t → first' t = first t) (hnext : ∀ t, T t → first' (last t) = first (last t))
    (hlast : ∀ t, T t → last' t = last t) : Partitions first' last' T := by
  refine ⟨fun t ht => ?_, fun t ht => ?_, fun t s ht hs => ?_, fun t s ht hs => ?_⟩
  · rw [hfirst t ht, hlast t ht]
    exact h.within t ht
  · rw [hlast t ht, hnext t ht]
    exact h.starts t ht
  · rw [hfirst t ht, hlast t ht, hlast s hs]
    exact h.sameNext t s ht hs
  · rw [hfirst t ht, hfirst s hs]
    exact h.monotone t s ht hs

/-! ## Boundaries as readings -/

/-- The last instant up to `t` at which the clock reads a multiple of the period. -/
def GreatestBoundary (reading : Int → Int) (period t h : Int) : Prop :=
  (h ≤ t ∧ reading h % period = 0) ∧ ∀ s, h < s → s ≤ t → reading s % period ≠ 0

/-- Up to multiples of the period the clock runs on from `t - 1` to `t`, or it reads a boundary at `t`. -/
def RunsOn (reading : Int → Int) (period t : Int) : Prop :=
  (reading t - reading (t - 1) - 1) % period = 0 ∨ reading t % period = 0

/-- The instant that the reading at `t` alone gives for its boundary. -/
def boundaryAt (reading : Int → Int) (period t : Int) : Int := t - reading t % period

theorem GreatestBoundary.unique {h h' : Int} (hg : GreatestBoundary reading period t h)
    (hg' : GreatestBoundary reading period t h') : h = h' := by
  rcases lt_trichotomy h h' with hlt | heq | hlt
  · exact absurd hg'.1.2 (hg.2 h' hlt hg'.1.1)
  · exact heq
  · exact absurd hg.1.2 (hg'.2 h hlt hg.1.1)

/-- Where the clock runs on, one instant earlier it reads one less. -/
theorem RunsOn.emod_sub_one (h : RunsOn reading period t) (hne : reading t % period ≠ 0) (hperiod : 0 < period) :
    reading (t - 1) % period = reading t % period - 1 := by
  have hmod : (reading t - 1 - reading (t - 1)) % period = 0 := by
    rw [show reading t - 1 - reading (t - 1) = reading t - reading (t - 1) - 1 by omega]
    exact h.resolve_right hne
  have hnonneg := Int.emod_nonneg (reading t) hperiod.ne'
  have hlt := Int.emod_lt_of_pos (reading t) hperiod
  calc reading (t - 1) % period = (reading t - 1) % period := (Int.emod_eq_emod_iff_emod_sub_eq_zero.mpr hmod).symm
    _ = (reading t % period - 1) % period := (Int.emod_sub_emod _ _ _).symm
    _ = reading t % period - 1 := Int.emod_eq_of_lt (by omega) (by omega)

/-- Where the clock runs on since then, the reading at `t` alone gives the last boundary. -/
theorem greatestBoundary (hperiod : 0 < period) (h : ∀ s, boundaryAt reading period t < s → s ≤ t →
    RunsOn reading period s) : GreatestBoundary reading period t (boundaryAt reading period t) := by
  have hnonneg := Int.emod_nonneg (reading t) hperiod.ne'
  obtain ⟨k, hk⟩ := Int.eq_ofNat_of_zero_le hnonneg
  induction k generalizing t with
  | zero =>
    have hat : boundaryAt reading period t = t := by
      unfold boundaryAt
      omega
    rw [hat]
    exact ⟨⟨le_rfl, by simpa using hk⟩, fun s hlt hle => absurd hle hlt.not_ge⟩
  | succ k ih =>
    have hne : reading t % period ≠ 0 := by omega
    have hat : boundaryAt reading period t < t := by
      unfold boundaryAt
      omega
    have hbefore := (h t hat le_rfl).emod_sub_one hne hperiod
    have hsame : boundaryAt reading period (t - 1) = boundaryAt reading period t := by
      unfold boundaryAt
      omega
    have hearlier := ih (fun s hlt hle => h s (hsame ▸ hlt) (by omega)) (by omega) (by omega)
    rw [hsame] at hearlier
    refine ⟨⟨by omega, hearlier.1.2⟩, fun s hlt hle => ?_⟩
    rcases hle.lt_or_eq with hlt' | rfl
    · exact hearlier.2 s hlt (by omega)
    · exact hne

/-- If the reading alone gives the last boundary at `t` and before, the clock runs on to `t`. -/
theorem runsOn (h : GreatestBoundary reading period t (boundaryAt reading period t))
    (h' : GreatestBoundary reading period (t - 1) (boundaryAt reading period (t - 1))) : RunsOn reading period t := by
  by_cases hzero : reading t % period = 0
  · exact Or.inr hzero
  · have hne : boundaryAt reading period t ≠ t := by
      unfold boundaryAt
      omega
    have hle := h.1.1
    have hbefore : GreatestBoundary reading period (t - 1) (boundaryAt reading period t) :=
      ⟨⟨by omega, h.1.2⟩, fun s hlt hs => h.2 s hlt (by omega)⟩
    have heq := hbefore.unique h'
    have hmod : reading (t - 1) % period = reading t % period - 1 := by
      unfold boundaryAt at heq
      omega
    refine Or.inl (Int.emod_eq_zero_of_dvd ⟨reading t / period - reading (t - 1) / period, ?_⟩)
    have ht := Int.mul_ediv_add_emod (reading t) period
    have ht' := Int.mul_ediv_add_emod (reading (t - 1)) period
    rw [mul_sub]
    omega

end Lib.Clock
