import OptionX.Lib.Clock
import OptionX.Records.LocalDays

/-!
# Days of a fixed offset and of a zone

Both kinds of zones are clocks in the sense of `Lib.Clock` as far as the conversions stay within 64 bits; where they do
not, the two directions fall back apart from each other.
-/

namespace OptionX.Records.TradeTimeZone

open Lib.Clock
open Lib.Machine (Exact i64 i64_ok int64Max int64Min)

variable {Zone : Type} {shield : TimeShield Zone} {timeZone : TradeTimeZone Zone} {zone : Zone} {offsetSec t m a b : Int}

def Int64 (z : Int) : Prop := minInt64 ≤ z ∧ z ≤ maxInt64

instance (z : Int) : Decidable (Int64 z) := inferInstanceAs (Decidable (_ ∧ _))

def msPerDay : Int := 86400000

def msPerHour : Int := 3600000

theorem checkedInt64_of_fits (h : Int64 m) : checkedInt64 m = some m := if_pos h

theorem checkedInt64_eq_some {z : Int} : checkedInt64 m = some z ↔ Int64 m ∧ m = z := by
  simp [checkedInt64, Int64]

theorem checkedInt64_eq_none : checkedInt64 m = none ↔ ¬ Int64 m := by simp [checkedInt64, Int64]

/-! ## No operation overflows -/

theorem i64_fits (h : Int64 m) : i64 m = .ok m := i64_ok h.1 h.2

theorem addRefused_ok {lhs rhs : Int} (hr : Int64 rhs) (hl : Int64 lhs) :
    Checked.addRefused lhs rhs = .ok (decide (¬ Int64 (lhs + rhs))) := by
  unfold Checked.addRefused
  unfold Int64 minInt64 maxInt64 at *
  split
  · rw [i64_ok (by unfold int64Min int64Max; omega) (by unfold int64Max; omega)]
    simp only [Lib.Machine.ok_bind, int64Max, Lib.Machine.pure_eq_ok, Except.ok.injEq, decide_eq_decide]
    omega
  · split
    · split
      · rename_i heq
        simp only [int64Min] at heq
        simp only [Lib.Machine.pure_eq_ok, Except.ok.injEq, decide_eq_decide]
        omega
      · rename_i hne
        simp only [int64Min] at hne
        rw [i64_ok (by unfold int64Min; omega) (by unfold int64Min int64Max; omega)]
        simp only [Lib.Machine.ok_bind, int64Min, Lib.Machine.pure_eq_ok, Except.ok.injEq, decide_eq_decide]
        omega
    · rw [decide_eq_false (by omega)]
      rfl

theorem subtractRefused_ok {lhs rhs : Int} (hr : Int64 rhs) (hl : Int64 lhs) :
    Checked.subtractRefused lhs rhs = .ok (decide (¬ Int64 (lhs - rhs))) := by
  unfold Checked.subtractRefused
  unfold Int64 minInt64 maxInt64 at *
  split
  · rw [i64_ok (by unfold int64Min; omega) (by unfold int64Min int64Max; omega)]
    simp only [Lib.Machine.ok_bind, int64Min, Lib.Machine.pure_eq_ok, Except.ok.injEq, decide_eq_decide]
    omega
  · split
    · split
      · rename_i heq
        simp only [int64Min] at heq
        simp only [Lib.Machine.pure_eq_ok, Except.ok.injEq, decide_eq_decide]
        omega
      · rename_i hne
        simp only [int64Min] at hne
        rw [i64_ok (by unfold int64Min int64Max; omega) (by unfold int64Max; omega)]
        simp only [Lib.Machine.ok_bind, int64Max, Lib.Machine.pure_eq_ok, Except.ok.injEq, decide_eq_decide]
        omega
    · rw [decide_eq_false (by omega)]
      rfl

theorem checkedAdd_ok {lhs rhs : Int} (hl : Int64 lhs) (hr : Int64 rhs) :
    Checked.checkedAddInt64 lhs rhs = .ok (checkedAddInt64 lhs rhs) := by
  rw [Checked.checkedAddInt64, addRefused_ok hr hl, checkedAddInt64]
  by_cases h : Int64 (lhs + rhs)
  · simp [h, i64_fits, checkedInt64_of_fits]
  · simp [h, checkedInt64_eq_none.mpr h]

theorem checkedSubtract_ok {lhs rhs : Int} (hl : Int64 lhs) (hr : Int64 rhs) :
    Checked.checkedSubtractInt64 lhs rhs = .ok (checkedSubtractInt64 lhs rhs) := by
  rw [Checked.checkedSubtractInt64, subtractRefused_ok hr hl, checkedSubtractInt64]
  by_cases h : Int64 (lhs - rhs)
  · simp [h, i64_fits, checkedInt64_of_fits]
  · simp [h, checkedInt64_eq_none.mpr h]

theorem checkedSecondsToMs_ok (seconds : Int) :
    Checked.checkedSecondsToMs seconds = .ok (checkedSecondsToMs seconds) := by
  have hmax : int64Max.tdiv 1000 = 9223372036854775 := rfl
  have hmin : int64Min.tdiv 1000 = -9223372036854775 := rfl
  rw [Checked.checkedSecondsToMs, hmax, hmin, checkedSecondsToMs]
  split
  · have hout : ¬ Int64 (seconds * 1000) := by
      unfold Int64 minInt64 maxInt64
      omega
    rw [checkedInt64_eq_none.mpr hout]
    rfl
  · have hfits : Int64 (seconds * 1000) := by
      unfold Int64 minInt64 maxInt64
      omega
    rw [i64_fits hfits, checkedInt64_of_fits hfits]
    rfl

/-- The remainder that is made non-negative is the one of the floor. -/
theorem tmod_adjusted {period : Int} (hpos : 0 < period) (t : Int) :
    t.tmod period = t % period ∨ t.tmod period < 0 ∧ t.tmod period + period = t % period := by
  have hlt := Int.emod_lt_of_pos t hpos
  rw [Int.tmod_eq_emod]
  split
  · simp
  · rw [Int.natAbs_of_nonneg hpos.le]
    omega

theorem checkedStartOfPeriodMs_ok {period : Int} (hpos : 0 < period) (hperiod : Int64 period) (ht : Int64 t) :
    Checked.checkedStartOfPeriodMs t period = .ok (checkedStartOfPeriodMs t period) := by
  have hnonneg := Int.emod_nonneg t hpos.ne'
  have hlt := Int.emod_lt_of_pos t hpos
  have hfits : Int64 (t % period) := by
    unfold Int64 minInt64 maxInt64 at *
    omega
  rw [Checked.checkedStartOfPeriodMs]
  rcases tmod_adjusted hpos t with heq | ⟨hneg, heq⟩
  · simp only [heq, hnonneg.not_gt, if_false, Lib.Machine.pure_eq_ok, Lib.Machine.ok_bind]
    exact checkedSubtract_ok ht hfits
  · simp only [hneg, if_true, heq, i64_fits hfits, Lib.Machine.ok_bind]
    exact checkedSubtract_ok ht hfits

/-- What the checked functions give fits. -/
theorem fits_of_checked {z : Int} (h : checkedInt64 m = some z) : Int64 z := by
  obtain ⟨hfits, rfl⟩ := checkedInt64_eq_some.mp h
  exact hfits

theorem tryToLocalMs_ok (ht : Int64 t) : Checked.tryToLocalMs shield t timeZone = .ok (timeZone.tryToLocalMs shield t) := by
  cases timeZone with
  | unsupported => rfl
  | fixedOffset | named =>
    simp only [Checked.tryToLocalMs, TradeTimeZone.tryToLocalMs]
    generalize tryOffsetAtUtcMs shield t _ = offset
    cases offset with
    | none => rfl
    | some offsetSec =>
      simp only [checkedSecondsToMs_ok, Lib.Machine.ok_bind]
      cases hms : checkedSecondsToMs offsetSec with
      | none => simp [hms]
      | some offsetMs => simpa [hms] using checkedAdd_ok ht (fits_of_checked hms)

theorem toLocalMs_ok (ht : Int64 t) : Checked.toLocalMs shield t timeZone = .ok (timeZone.toLocalMs shield t) := by
  simp only [Checked.toLocalMs, tryToLocalMs_ok ht, Lib.Machine.ok_bind]
  rfl

/-- A local time that was computed fits. -/
theorem toLocalMs_fits (ht : Int64 t) : Int64 (timeZone.toLocalMs shield t) := by
  unfold toLocalMs
  cases hlocal : timeZone.tryToLocalMs shield t with
  | none => exact ht
  | some local_ =>
    cases timeZone with
    | unsupported => cases hlocal
    | fixedOffset offsetSec =>
      obtain ⟨_, _, hlocal⟩ := Option.bind_eq_some_iff.mp hlocal
      exact fits_of_checked hlocal
    | named zone =>
      obtain ⟨_, _, hlocal⟩ := Option.bind_eq_some_iff.mp hlocal
      obtain ⟨_, _, hlocal⟩ := Option.bind_eq_some_iff.mp hlocal
      exact fits_of_checked hlocal

theorem subtractOffset_ok (hm : Int64 m) (offsetSec : Int) : Checked.subtractOffset m offsetSec =
    .ok (((checkedSecondsToMs offsetSec).bind (checkedSubtractInt64 m)).getD m) := by
  simp only [Checked.subtractOffset, checkedSecondsToMs_ok, Lib.Machine.ok_bind]
  cases hms : checkedSecondsToMs offsetSec with
  | none => rfl
  | some offsetMs =>
    simp only [checkedSubtract_ok hm (fits_of_checked hms), Lib.Machine.ok_bind]
    rfl

theorem toUtcMs_ok (hm : Int64 m) : Checked.toUtcMs shield m timeZone = .ok (timeZone.toUtcMs shield m) := by
  cases timeZone with
  | fixedOffset offsetSec => exact subtractOffset_ok hm offsetSec
  | unsupported => exact subtractOffset_ok hm 0
  | named zone => rfl

theorem int64_msPerDay : Int64 86400000 := by decide

theorem int64_msPerHour : Int64 3600000 := by decide

theorem startOfLocalDayUtcMs_ok (ht : Int64 t) :
    Checked.startOfLocalDayUtcMs shield t timeZone = .ok (timeZone.startOfLocalDayUtcMs shield t) := by
  simp only [Checked.startOfLocalDayUtcMs, startOfLocalDayUtcMs, toLocalMs_ok ht, Lib.Machine.ok_bind,
    checkedStartOfPeriodMs_ok (by decide) int64_msPerDay (toLocalMs_fits ht)]
  cases hday : checkedStartOfPeriodMs (timeZone.toLocalMs shield t) 86400000 with
  | none => rfl
  | some dayStart => exact toUtcMs_ok (fits_of_checked hday)

theorem nextLocalDayStartUtcMs_ok (ht : Int64 t) :
    Checked.nextLocalDayStartUtcMs shield t timeZone = .ok (timeZone.nextLocalDayStartUtcMs shield t) := by
  simp only [Checked.nextLocalDayStartUtcMs, nextLocalDayStartUtcMs, toLocalMs_ok ht, Lib.Machine.ok_bind,
    checkedStartOfPeriodMs_ok (by decide) int64_msPerDay (toLocalMs_fits ht)]
  cases hday : checkedStartOfPeriodMs (timeZone.toLocalMs shield t) 86400000 with
  | none => rfl
  | some dayStart =>
    simp only [checkedAdd_ok (fits_of_checked hday) int64_msPerDay, Lib.Machine.ok_bind]
    cases hnext : checkedAddInt64 dayStart 86400000 with
    | none => rfl
    | some nextDayStart => exact toUtcMs_ok (fits_of_checked hnext)

theorem startOfLocalHourUtcMs_ok (ht : Int64 t) :
    Checked.startOfLocalHourUtcMs shield t timeZone = .ok (timeZone.startOfLocalHourUtcMs shield t) := by
  unfold Checked.startOfLocalHourUtcMs startOfLocalHourUtcMs
  cases timeZone.tryOffsetAtUtcMs shield t with
  | none => rfl
  | some offsetSec =>
    simp only [checkedSecondsToMs_ok, Lib.Machine.ok_bind]
    cases hms : checkedSecondsToMs offsetSec with
    | none => simp [hms]
    | some offsetMs =>
      simp only [checkedAdd_ok ht (fits_of_checked hms), Lib.Machine.ok_bind]
      cases hlocal : checkedAddInt64 t offsetMs with
      | none => simp [hms, hlocal]
      | some localMs =>
        simp only [checkedStartOfPeriodMs_ok (by decide) int64_msPerHour (fits_of_checked hlocal), Lib.Machine.ok_bind]
        cases hhour : checkedStartOfPeriodMs localMs 3600000 with
        | none => simp [hms, hlocal, hhour]
        | some hourStart =>
          simp only [checkedSubtract_ok (fits_of_checked hhour) (fits_of_checked hms), Lib.Machine.ok_bind]
          simp [hms, hlocal, hhour]

/-! ## Where nothing falls back -/

/-- The local time of an instant, if it fits. -/
theorem toLocalMs_resolved {off : Int} (hoff : timeZone.tryOffsetAtUtcMs shield t = some off)
    (hzone : timeZone ≠ .unsupported) (hms : Int64 (off * 1000)) (hlocal : Int64 (t + off * 1000)) :
    timeZone.toLocalMs shield t = t + off * 1000 := by
  have htry : timeZone.tryToLocalMs shield t = some (t + off * 1000) := by
    have hbind : ((some off).bind fun off => (checkedSecondsToMs off).bind (checkedAddInt64 t)) =
        some (t + off * 1000) := by
      simp only [Option.bind_some, checkedSecondsToMs, checkedInt64_of_fits hms, checkedAddInt64,
        checkedInt64_of_fits hlocal]
    cases timeZone with
    | unsupported => exact absurd rfl hzone
    | fixedOffset offsetSec => exact (congrArg (Option.bind · _) hoff).trans hbind
    | named zone => exact (congrArg (Option.bind · _) hoff).trans hbind
  rw [toLocalMs, htry, Option.getD_some]

theorem startOfLocalDayUtcMs_eq (h : Int64 (boundary msPerDay (timeZone.toLocalMs shield t))) :
    timeZone.startOfLocalDayUtcMs shield t = start (timeZone.toLocalMs shield) (timeZone.toUtcMs shield) msPerDay t := by
  have hday : checkedStartOfPeriodMs (timeZone.toLocalMs shield t) 86400000 =
      some (boundary msPerDay (timeZone.toLocalMs shield t)) := checkedInt64_of_fits h
  rw [startOfLocalDayUtcMs, hday, start]

theorem nextLocalDayStartUtcMs_eq (h : Int64 (boundary msPerDay (timeZone.toLocalMs shield t)))
    (h' : Int64 (boundary msPerDay (timeZone.toLocalMs shield t) + msPerDay)) :
    timeZone.nextLocalDayStartUtcMs shield t = next (timeZone.toLocalMs shield) (timeZone.toUtcMs shield) msPerDay t := by
  have hday : checkedStartOfPeriodMs (timeZone.toLocalMs shield t) 86400000 =
      some (boundary msPerDay (timeZone.toLocalMs shield t)) := checkedInt64_of_fits h
  have hnext : checkedAddInt64 (boundary msPerDay (timeZone.toLocalMs shield t)) 86400000 =
      some (boundary msPerDay (timeZone.toLocalMs shield t) + msPerDay) := checkedInt64_of_fits h'
  simp only [nextLocalDayStartUtcMs, hday, hnext, next]

/-- The hour of an instant, if everything fits. -/
theorem startOfLocalHourUtcMs_eq {off : Int} (hoff : timeZone.tryOffsetAtUtcMs shield t = some off)
    (hms : Int64 (off * 1000)) (hlocal : Int64 (t + off * 1000)) (hhour : Int64 (boundary msPerHour (t + off * 1000)))
    (hstart : Int64 (t - (t + off * 1000) % msPerHour)) :
    timeZone.startOfLocalHourUtcMs shield t = t - (t + off * 1000) % msPerHour := by
  have hperiod : checkedStartOfPeriodMs (t + off * 1000) 3600000 = some (boundary msPerHour (t + off * 1000)) :=
    checkedInt64_of_fits hhour
  have hback : checkedSubtractInt64 (boundary msPerHour (t + off * 1000)) (off * 1000) =
      some (t - (t + off * 1000) % msPerHour) := by
    rw [checkedSubtractInt64, show boundary msPerHour (t + off * 1000) - off * 1000 =
      t - (t + off * 1000) % msPerHour by unfold boundary; omega]
    exact checkedInt64_of_fits hstart
  simp only [startOfLocalHourUtcMs, hoff, checkedSecondsToMs, checkedInt64_of_fits hms, checkedAddInt64,
    checkedInt64_of_fits hlocal, hperiod, hback, Option.bind_eq_bind, Option.bind_some, Option.getD_some]

/-! ## Fixed offsets -/

/-- The instants up to 2^62 ms from 1970. -/
def Near (t : Int) : Prop := -2 ^ 62 ≤ t ∧ t ≤ 2 ^ 62

/-- The local days of these instants fit 64 bits, from the start of the first to the end of the last. -/
def DaysFit (offsetSec : Int) : Prop :=
  minInt64 ≤ boundary msPerDay (-2 ^ 62 + offsetSec * 1000) ∧
    boundary msPerDay (2 ^ 62 + offsetSec * 1000) + msPerDay ≤ maxInt64

theorem msPerDay_pos : 0 < msPerDay := by decide

theorem msPerHour_pos : 0 < msPerHour := by decide

theorem fixed_toLocalMs (hms : Int64 (offsetSec * 1000)) (h : Int64 (t + offsetSec * 1000)) :
    toLocalMs shield t (.fixedOffset offsetSec : TradeTimeZone Zone) = t + offsetSec * 1000 :=
  toLocalMs_resolved rfl (by simp) hms h

theorem fixed_toUtcMs (hms : Int64 (offsetSec * 1000)) (h : Int64 (m - offsetSec * 1000)) :
    toUtcMs shield m (.fixedOffset offsetSec : TradeTimeZone Zone) = m - offsetSec * 1000 := by
  simp only [toUtcMs, checkedSecondsToMs, checkedInt64_of_fits hms, Option.bind_some, checkedSubtractInt64,
    checkedInt64_of_fits h, Option.getD_some]

/-- Local days of near instants lie between those of the first and of the last. -/
theorem DaysFit.day (h : DaysFit offsetSec) (ht : Near t) :
    Int64 (boundary msPerDay (t + offsetSec * 1000)) ∧
      Int64 (boundary msPerDay (t + offsetSec * 1000) + msPerDay) ∧ Int64 (offsetSec * 1000) := by
  obtain ⟨hfirst, hlast⟩ := h
  have hday : msPerDay = 86400000 := rfl
  have hge := le_boundary msPerDay_pos (dvd_boundary msPerDay (-2 ^ 62 + offsetSec * 1000))
    (show _ ≤ t + offsetSec * 1000 by
      have := boundary_le msPerDay_pos (-2 ^ 62 + offsetSec * 1000)
      have := ht.1
      omega)
  have hle := le_boundary msPerDay_pos (dvd_boundary msPerDay (t + offsetSec * 1000))
    (show _ ≤ 2 ^ 62 + offsetSec * 1000 by
      have := boundary_le msPerDay_pos (t + offsetSec * 1000)
      have := ht.2
      omega)
  have := boundary_le msPerDay_pos (-2 ^ 62 + offsetSec * 1000)
  have := lt_boundary_add msPerDay_pos (2 ^ 62 + offsetSec * 1000)
  unfold Int64 minInt64 maxInt64 at *
  omega

/-- The instants around the near ones whose local day fits. -/
def FixedInstant (offsetSec t : Int) : Prop :=
  Int64 (boundary msPerDay (t + offsetSec * 1000)) ∧ t + offsetSec * 1000 ≤ maxInt64 ∧
    -2 ^ 62 - msPerDay ≤ t ∧ t ≤ 2 ^ 62 + msPerDay

/-- The boundaries around them. -/
def FixedBoundary (offsetSec m : Int) : Prop :=
  Int64 m ∧ -2 ^ 62 - msPerDay ≤ m - offsetSec * 1000 ∧ m - offsetSec * 1000 ≤ 2 ^ 62 + msPerDay

theorem FixedInstant.toLocalMs (hms : Int64 (offsetSec * 1000)) (h : FixedInstant offsetSec t) :
    toLocalMs shield t (.fixedOffset offsetSec : TradeTimeZone Zone) = t + offsetSec * 1000 := by
  have := boundary_le msPerDay_pos (t + offsetSec * 1000)
  exact fixed_toLocalMs hms ⟨h.1.1.trans this, h.2.1⟩

theorem FixedBoundary.toUtcMs (hms : Int64 (offsetSec * 1000)) (h : FixedBoundary offsetSec m) :
    toUtcMs shield m (.fixedOffset offsetSec : TradeTimeZone Zone) = m - offsetSec * 1000 := by
  have hday : msPerDay = 86400000 := rfl
  have hback := h.2
  refine fixed_toUtcMs hms ?_
  unfold Int64 minInt64 maxInt64
  omega

/-- The local day of a near instant, with everything that is looked at in it. -/
theorem DaysFit.near (h : DaysFit offsetSec) (ht : Near t) :
    FixedInstant offsetSec t ∧
    (FixedBoundary offsetSec (boundary msPerDay (t + offsetSec * 1000)) ∧
      FixedInstant offsetSec (boundary msPerDay (t + offsetSec * 1000) - offsetSec * 1000)) ∧
    FixedBoundary offsetSec (boundary msPerDay (t + offsetSec * 1000) + msPerDay) ∧
      FixedInstant offsetSec (boundary msPerDay (t + offsetSec * 1000) + msPerDay - offsetSec * 1000) ∧
      FixedInstant offsetSec (boundary msPerDay (t + offsetSec * 1000) + msPerDay - offsetSec * 1000 - 1) := by
  obtain ⟨hfirst, hlast, _⟩ := h.day ht
  have hday : msPerDay = 86400000 := rfl
  have hle := boundary_le msPerDay_pos (t + offsetSec * 1000)
  have hlt := lt_boundary_add msPerDay_pos (t + offsetSec * 1000)
  have hdvd := dvd_boundary msPerDay (t + offsetSec * 1000)
  have hstart : boundary msPerDay (boundary msPerDay (t + offsetSec * 1000) - offsetSec * 1000 + offsetSec * 1000) =
      boundary msPerDay (t + offsetSec * 1000) := by rw [sub_add_cancel, boundary_of_dvd hdvd]
  have hnext : boundary msPerDay (boundary msPerDay (t + offsetSec * 1000) + msPerDay - offsetSec * 1000 +
      offsetSec * 1000) = boundary msPerDay (t + offsetSec * 1000) + msPerDay := by
    rw [sub_add_cancel, boundary_of_dvd (Int.dvd_add hdvd (dvd_refl _))]
  have hbefore : Int64 (boundary msPerDay (boundary msPerDay (t + offsetSec * 1000) + msPerDay - offsetSec * 1000 - 1 +
      offsetSec * 1000)) := by
    have hge := le_boundary msPerDay_pos hdvd (show _ ≤ boundary msPerDay (t + offsetSec * 1000) + msPerDay -
      offsetSec * 1000 - 1 + offsetSec * 1000 by omega)
    have := boundary_le msPerDay_pos (boundary msPerDay (t + offsetSec * 1000) + msPerDay - offsetSec * 1000 - 1 +
      offsetSec * 1000)
    unfold Int64 at *
    omega
  unfold FixedInstant FixedBoundary
  rw [hstart, hnext]
  unfold Near at ht
  unfold Int64 at *
  omega

theorem DaysFit.spans (shield : TimeShield Zone) (h : DaysFit offsetSec) :
    Spans (toLocalMs shield · (.fixedOffset offsetSec : TradeTimeZone Zone))
      (toUtcMs shield · (.fixedOffset offsetSec)) msPerDay Near (FixedInstant offsetSec) (FixedBoundary offsetSec) := by
  refine ⟨fun t ht => (h.near ht).1, fun t ht => ?_, fun t ht => ?_⟩
  · obtain ⟨hinstant, ⟨hB, hD⟩, _⟩ := h.near ht
    have hms := (h.day ht).2.2
    simp only [start, hinstant.toLocalMs hms, hB.toUtcMs hms]
    exact ⟨hB, hD⟩
  · obtain ⟨hinstant, _, hB, hD, hD'⟩ := h.near ht
    have hms := (h.day ht).2.2
    simp only [next, hinstant.toLocalMs hms, hB.toUtcMs hms, hD.toLocalMs hms, sub_add_cancel]
    rw [boundary_of_dvd (Int.dvd_add (dvd_boundary _ _) (dvd_refl _))]
    exact ⟨hB, hD, hD', hB⟩

theorem fixed_crosses (hms : Int64 (offsetSec * 1000)) :
    Crosses (toLocalMs shield · (.fixedOffset offsetSec : TradeTimeZone Zone))
      (toUtcMs shield · (.fixedOffset offsetSec)) (FixedInstant offsetSec) (FixedBoundary offsetSec) := by
  intro t m ht hm
  simp only [ht.toLocalMs hms, hm.toUtcMs hms]
  omega

/-- The local time of the source as the reading of a clock, and its way back. -/
abbrev reading (shield : TimeShield Zone) (timeZone : TradeTimeZone Zone) (t : Int) : Int := timeZone.toLocalMs shield t

abbrev instant (shield : TimeShield Zone) (timeZone : TradeTimeZone Zone) (m : Int) : Int := timeZone.toUtcMs shield m

/-- The day queries of the source as functions of the instant. -/
abbrev dayStart (shield : TimeShield Zone) (timeZone : TradeTimeZone Zone) (t : Int) : Int :=
  timeZone.startOfLocalDayUtcMs shield t

abbrev dayNext (shield : TimeShield Zone) (timeZone : TradeTimeZone Zone) (t : Int) : Int :=
  timeZone.nextLocalDayStartUtcMs shield t

/-- The queries of the source are the days of the clock, where those fit. -/
theorem partitions_of_clock {T : Int → Prop}
    (h : Partitions (start (reading shield timeZone) (instant shield timeZone) msPerDay)
      (next (reading shield timeZone) (instant shield timeZone) msPerDay) T)
    (hfirst : ∀ t, T t → Int64 (boundary msPerDay (timeZone.toLocalMs shield t)))
    (hlast : ∀ t, T t → Int64 (boundary msPerDay (timeZone.toLocalMs shield t) + msPerDay))
    (hnext : ∀ t, T t → Int64 (boundary msPerDay (timeZone.toLocalMs shield
      (next (reading shield timeZone) (instant shield timeZone) msPerDay t)))) :
    Partitions (dayStart shield timeZone) (dayNext shield timeZone) T :=
  h.congr (fun t ht => startOfLocalDayUtcMs_eq (hfirst t ht)) (fun t ht => startOfLocalDayUtcMs_eq (hnext t ht))
    fun t ht => nextLocalDayStartUtcMs_eq (hfirst t ht) (hlast t ht)

theorem fixed_partitions (h : DaysFit offsetSec) :
    Partitions (dayStart shield (.fixedOffset offsetSec : TradeTimeZone Zone)) (dayNext shield (.fixedOffset offsetSec))
      Near := by
  have hms : Int64 (offsetSec * 1000) := (h.day (show Near 0 from ⟨by decide, by decide⟩)).2.2
  have hspans := h.spans shield
  refine partitions_of_clock (partitions msPerDay_pos hspans (fixed_crosses hms))
    (fun t ht => (hspans.start t ht).1.1) (fun t ht => (hspans.next t ht).1.1) fun t ht => (hspans.next t ht).2.2.2.1

theorem fixed_hour (h : DaysFit offsetSec) (ht : Near t) :
    GreatestBoundary (reading shield (.fixedOffset offsetSec : TradeTimeZone Zone)) msPerHour t
      (startOfLocalHourUtcMs shield t (.fixedOffset offsetSec : TradeTimeZone Zone)) := by
  obtain ⟨hfirst, hlast, hms⟩ := h.day ht
  have hday : msPerDay = 86400000 := rfl
  have hhour : msPerHour = 3600000 := rfl
  have hle := boundary_le msPerDay_pos (t + offsetSec * 1000)
  have hlt := lt_boundary_add msPerDay_pos (t + offsetSec * 1000)
  -- the hour begins within the day
  have hge := le_boundary msPerHour_pos ((show msPerHour ∣ msPerDay by decide).trans (dvd_boundary _ _)) hle
  have hlocal : ∀ s, boundary msPerHour (t + offsetSec * 1000) ≤ s + offsetSec * 1000 → s ≤ t →
      reading shield (.fixedOffset offsetSec : TradeTimeZone Zone) s = s + offsetSec * 1000 := by
    intro s hs hst
    refine fixed_toLocalMs hms ?_
    unfold Int64 at *
    omega
  have hboundary := boundary_le msPerHour_pos (t + offsetSec * 1000)
  have hhourStart : startOfLocalHourUtcMs shield t (.fixedOffset offsetSec : TradeTimeZone Zone) =
      boundaryAt (reading shield (.fixedOffset offsetSec : TradeTimeZone Zone)) msPerHour t := by
    have hnonneg := Int.emod_nonneg (t + offsetSec * 1000) msPerHour_pos.ne'
    have hmod := Int.emod_lt_of_pos (t + offsetSec * 1000) msPerHour_pos
    rw [boundaryAt, hlocal t hboundary le_rfl]
    unfold Near at ht
    exact startOfLocalHourUtcMs_eq rfl hms (by unfold Int64 at *; omega) (by unfold Int64 at *; omega)
      (by unfold Int64 minInt64 maxInt64; omega)
  rw [hhourStart]
  refine greatestBoundary msPerHour_pos fun s hs hst => Or.inl ?_
  have hback : boundary msPerHour (t + offsetSec * 1000) < s + offsetSec * 1000 := by
    unfold boundaryAt at hs
    rw [hlocal t hboundary le_rfl] at hs
    unfold boundary
    omega
  rw [hlocal s hback.le hst, hlocal (s - 1) (by omega) (by omega)]
  rw [show s + offsetSec * 1000 - (s - 1 + offsetSec * 1000) - 1 = 0 by omega]
  rfl

/-! ### Offsets whose days do not fit -/

/-- A day whose start does not fit is empty. -/
theorem dayNext_of_start (h : ¬ Int64 (boundary msPerDay (timeZone.toLocalMs shield t))) :
    dayNext shield timeZone t = t := by
  have hday : checkedStartOfPeriodMs (timeZone.toLocalMs shield t) 86400000 = none := checkedInt64_eq_none.mpr h
  rw [dayNext, nextLocalDayStartUtcMs, hday]

/-- A day whose end does not fit is empty. -/
theorem dayNext_of_next (h : Int64 (boundary msPerDay (timeZone.toLocalMs shield t)))
    (h' : ¬ Int64 (boundary msPerDay (timeZone.toLocalMs shield t) + msPerDay)) :
    dayNext shield timeZone t = t := by
  have hday : checkedStartOfPeriodMs (timeZone.toLocalMs shield t) 86400000 =
      some (boundary msPerDay (timeZone.toLocalMs shield t)) := checkedInt64_of_fits h
  have hnext : checkedAddInt64 (boundary msPerDay (timeZone.toLocalMs shield t)) 86400000 = none :=
    checkedInt64_eq_none.mpr h'
  simp only [dayNext, nextLocalDayStartUtcMs, hday, hnext]

theorem fixed_toLocalMs_overflow (shield : TimeShield Zone) (h : ¬ Int64 (t + offsetSec * 1000)) :
    toLocalMs shield t (.fixedOffset offsetSec : TradeTimeZone Zone) = t := by
  have hbind : ((checkedSecondsToMs offsetSec).bind (checkedAddInt64 t)) = none := by
    rw [checkedSecondsToMs, Option.bind_eq_none_iff]
    intro offsetMs hms
    obtain ⟨_, rfl⟩ := checkedInt64_eq_some.mp hms
    exact checkedInt64_eq_none.mpr h
  have htry : tryToLocalMs shield t (.fixedOffset offsetSec : TradeTimeZone Zone) = none := hbind
  rw [toLocalMs, htry, Option.getD_none]

/-- Where the last days do not fit, the last near instant has no day around it. -/
theorem fixed_last (shield : TimeShield Zone) (hms : Int64 (offsetSec * 1000))
    (h : maxInt64 < boundary msPerDay (2 ^ 62 + offsetSec * 1000) + msPerDay) :
    dayNext shield (.fixedOffset offsetSec : TradeTimeZone Zone) (2 ^ 62) ≤ 2 ^ 62 := by
  have hday : msPerDay = 86400000 := rfl
  have hle := boundary_le msPerDay_pos (2 ^ 62 + offsetSec * 1000)
  have hlt := lt_boundary_add msPerDay_pos (2 ^ 62 + offsetSec * 1000)
  by_cases hlocal : Int64 (2 ^ 62 + offsetSec * 1000)
  · rw [dayNext_of_next]
    all_goals
      rw [fixed_toLocalMs hms hlocal]
      unfold Int64 minInt64 maxInt64 at *
      omega
  · have hutc := fixed_toLocalMs_overflow shield hlocal
    have hboundary : boundary msPerDay (2 ^ 62) = 4611686018371200000 := by decide
    have hnext : dayNext shield (.fixedOffset offsetSec : TradeTimeZone Zone) (2 ^ 62) =
        boundary msPerDay (2 ^ 62) + msPerDay - offsetSec * 1000 := by
      rw [dayNext, nextLocalDayStartUtcMs_eq, next, hutc, fixed_toUtcMs hms]
      all_goals
        try rw [hutc]
        rw [hboundary]
        unfold Int64 minInt64 maxInt64 at *
        omega
    rw [hnext, hboundary]
    unfold Int64 minInt64 maxInt64 at *
    omega

/-- Where the first days do not fit, the first near instant has no day around it. -/
theorem fixed_first (shield : TimeShield Zone) (hms : Int64 (offsetSec * 1000))
    (h : boundary msPerDay (-2 ^ 62 + offsetSec * 1000) < minInt64) :
    dayNext shield (.fixedOffset offsetSec : TradeTimeZone Zone) (-2 ^ 62) ≤ -2 ^ 62 ∨
      -2 ^ 62 < dayStart shield (.fixedOffset offsetSec : TradeTimeZone Zone) (-2 ^ 62) := by
  have hday : msPerDay = 86400000 := rfl
  have hle := boundary_le msPerDay_pos (-2 ^ 62 + offsetSec * 1000)
  have hlt := lt_boundary_add msPerDay_pos (-2 ^ 62 + offsetSec * 1000)
  by_cases hlocal : Int64 (-2 ^ 62 + offsetSec * 1000)
  · left
    rw [dayNext_of_start]
    rw [fixed_toLocalMs hms hlocal]
    unfold Int64
    omega
  · right
    have hutc := fixed_toLocalMs_overflow shield hlocal
    have hboundary : boundary msPerDay (-2 ^ 62) = -4611686018457600000 := by decide
    have hstart : dayStart shield (.fixedOffset offsetSec : TradeTimeZone Zone) (-2 ^ 62) =
        boundary msPerDay (-2 ^ 62) - offsetSec * 1000 := by
      rw [dayStart, startOfLocalDayUtcMs_eq, start, hutc, fixed_toUtcMs hms]
      all_goals
        try rw [hutc]
        rw [hboundary]
        unfold Int64 minInt64 maxInt64 at *
        omega
    rw [hstart, hboundary]
    unfold Int64 minInt64 maxInt64 at *
    omega

/-- An offset that does not fit in milliseconds leaves the local time as it is, and the hour too. -/
theorem fixed_hour_overflow (h : ¬ Int64 (offsetSec * 1000)) :
    ¬ GreatestBoundary (reading shield (.fixedOffset offsetSec : TradeTimeZone Zone)) msPerHour 1
      (startOfLocalHourUtcMs shield 1 (.fixedOffset offsetSec : TradeTimeZone Zone)) := by
  have hms : checkedSecondsToMs offsetSec = none := checkedInt64_eq_none.mpr h
  have hhour : startOfLocalHourUtcMs shield 1 (.fixedOffset offsetSec : TradeTimeZone Zone) = 1 := by
    simp [startOfLocalHourUtcMs, tryOffsetAtUtcMs, hms]
  have hlocal : reading shield (.fixedOffset offsetSec : TradeTimeZone Zone) 1 = 1 := by
    simp [reading, toLocalMs, tryToLocalMs, tryOffsetAtUtcMs, hms]
  rw [hhour]
  rintro ⟨⟨_, hzero⟩, _⟩
  rw [hlocal] at hzero
  exact absurd hzero (by decide)

/-- Days and hours of a fixed offset are those of a clock exactly where its local days fit. -/
theorem fixed_iff : (Partitions (dayStart shield (.fixedOffset offsetSec : TradeTimeZone Zone))
      (dayNext shield (.fixedOffset offsetSec)) Near ∧
      ∀ t, Near t → GreatestBoundary (reading shield (.fixedOffset offsetSec : TradeTimeZone Zone)) msPerHour t
        (startOfLocalHourUtcMs shield t (.fixedOffset offsetSec : TradeTimeZone Zone))) ↔ DaysFit offsetSec := by
  refine ⟨fun ⟨hdays, hhours⟩ => ?_, fun h => ⟨fixed_partitions h, fun t ht => fixed_hour h ht⟩⟩
  by_cases hms : Int64 (offsetSec * 1000)
  · by_contra hfit
    rcases not_and_or.mp hfit with hfirst | hlast
    · have hwithin := hdays.within (-2 ^ 62) ⟨by decide, by decide⟩
      have := fixed_first shield hms (not_le.mp hfirst)
      omega
    · have hwithin := hdays.within (2 ^ 62) ⟨by decide, by decide⟩
      have := fixed_last shield hms (not_le.mp hlast)
      omega
  · exact absurd (hhours 1 ⟨by decide, by decide⟩) (fixed_hour_overflow hms)

/-! ## Named zones -/

/-- Between these instants the time library gives an offset of less than a day for each instant, and for each local time
an instant less than a day away. -/
structure Resolves (shield : TimeShield Zone) (zone : Zone) (first last : Int) : Prop where
  supported : shield.minTimestampMs ≤ first ∧ last ≤ shield.maxTimestampMs
  offset : ∀ t, first ≤ t → t ≤ last →
    ∃ off, shield.zoneOffsetAtUtcMs zone t = some off ∧ -86400 < off ∧ off < 86400
  instant : ∀ m, first ≤ m → m ≤ last →
    ∃ u, shield.zoneToGmtMs zone m = some u ∧ m - msPerDay < u ∧ u < m + msPerDay

/-- The instants from `a` to `b`. -/
def Within (a b t : Int) : Prop := a ≤ t ∧ t ≤ b

/-- The midnights between these local times. -/
def Midnight (a b m : Int) : Prop := msPerDay ∣ m ∧ Within a b m

/-- The part of the time line on which the queries for instants from `a` to `b` rest. -/
structure Supported (shield : TimeShield Zone) (zone : Zone) (a b : Int) : Prop where
  near : -2 ^ 62 ≤ a ∧ b ≤ 2 ^ 62
  resolves : Resolves shield zone (a - 4 * msPerDay) (b + 4 * msPerDay)

theorem Supported.timestamp (h : Supported shield zone a b) (ht : Within (a - 4 * msPerDay) (b + 4 * msPerDay) t) :
    isTimeShieldTimestamp shield t = true := by
  have hrange := h.resolves.supported
  simp only [isTimeShieldTimestamp, Bool.and_eq_true, decide_eq_true_eq]
  unfold Within at ht
  omega

theorem Supported.reads (h : Supported shield zone a b) (ht : Within (a - 4 * msPerDay) (b + 4 * msPerDay) t) :
    ∃ off, tryOffsetAtUtcMs shield t (.named zone) = some off ∧ -86400 < off ∧ off < 86400 ∧
      reading shield (.named zone) t = t + off * 1000 := by
  obtain ⟨off, hoff, hgt, hlt⟩ := h.resolves.offset t ht.1 ht.2
  have htry : tryOffsetAtUtcMs shield t (.named zone) = some off := by
    simp only [tryOffsetAtUtcMs, h.timestamp ht, if_true, hoff]
  have hday : msPerDay = 86400000 := rfl
  have hnear := h.near
  unfold Within at ht
  refine ⟨off, htry, hgt, hlt, toLocalMs_resolved htry (by simp) ?_ ?_⟩
  all_goals
    unfold Int64 minInt64 maxInt64
    omega

theorem Supported.reading_near (h : Supported shield zone a b)
    (ht : Within (a - 4 * msPerDay) (b + 4 * msPerDay) t) :
    t - msPerDay < reading shield (.named zone) t ∧ reading shield (.named zone) t < t + msPerDay := by
  obtain ⟨off, _, hgt, hlt, hreading⟩ := h.reads ht
  have hday : msPerDay = 86400000 := rfl
  omega

theorem Supported.instant_near (h : Supported shield zone a b)
    (hm : Within (a - 4 * msPerDay) (b + 4 * msPerDay) m) :
    m - msPerDay < instant shield (.named zone) m ∧ instant shield (.named zone) m < m + msPerDay := by
  obtain ⟨u, hu, hgt, hlt⟩ := h.resolves.instant m hm.1 hm.2
  simp only [instant, toUtcMs, h.timestamp hm, if_true, hu, Option.getD_some]
  exact ⟨hgt, hlt⟩

/-- The local day of an instant from `a` to `b`. -/
theorem Supported.boundary_near (h : Supported shield zone a b) (ht : Within (a - 3 * msPerDay) (b + 3 * msPerDay) t) :
    t - 2 * msPerDay < boundary msPerDay (reading shield (.named zone) t) ∧
      boundary msPerDay (reading shield (.named zone) t) < t + msPerDay := by
  have hday : msPerDay = 86400000 := rfl
  have hlocal := h.reading_near (show Within (a - 4 * msPerDay) (b + 4 * msPerDay) t by unfold Within at *; omega)
  have := boundary_le msPerDay_pos (reading shield (.named zone) t)
  have := lt_boundary_add msPerDay_pos (reading shield (.named zone) t)
  omega

theorem Supported.spans (h : Supported shield zone a b) :
    Spans (reading shield (.named zone)) (instant shield (.named zone)) msPerDay (Within a b)
      (Within (a - 3 * msPerDay) (b + 3 * msPerDay)) (Midnight (a - 4 * msPerDay) (b + 4 * msPerDay)) := by
  have hday : msPerDay = 86400000 := rfl
  have hwide : ∀ t, Within a b t → Within (a - 3 * msPerDay) (b + 3 * msPerDay) t := by
    intro t ht
    unfold Within at *
    omega
  refine ⟨hwide, fun t ht => ?_, fun t ht => ?_⟩
  · have hboundary := h.boundary_near (hwide t ht)
    have hm : Within (a - 4 * msPerDay) (b + 4 * msPerDay)
        (boundary msPerDay (reading shield (.named zone) t)) := by
      unfold Within at *
      omega
    have hinstant := h.instant_near hm
    refine ⟨⟨dvd_boundary _ _, hm⟩, ?_⟩
    unfold start Within at *
    omega
  · have hboundary := h.boundary_near (hwide t ht)
    have hm : Within (a - 4 * msPerDay) (b + 4 * msPerDay)
        (boundary msPerDay (reading shield (.named zone) t) + msPerDay) := by
      unfold Within at *
      omega
    have hinstant := h.instant_near hm
    have hnext : Within (a - 3 * msPerDay) (b + 3 * msPerDay)
        (next (reading shield (.named zone)) (instant shield (.named zone)) msPerDay t) := by
      unfold next Within at *
      omega
    have hlast := h.boundary_near hnext
    have hafter : t - 2 * msPerDay < next (reading shield (.named zone)) (instant shield (.named zone)) msPerDay t := by
      unfold next
      omega
    refine ⟨⟨Int.dvd_add (dvd_boundary _ _) (dvd_refl _), hm⟩, hnext, ?_, dvd_boundary _ _, ?_⟩
    · unfold next Within at *
      omega
    · unfold Within at *
      omega

/-- The clock of a zone passes each midnight once, at the instant that is given for it. -/
def CrossesMidnights (shield : TimeShield Zone) (zone : Zone) (a b : Int) : Prop :=
  Crosses (reading shield (.named zone)) (instant shield (.named zone)) (Within a b)
    (Midnight (a - msPerDay) (b + msPerDay))

/-- Where the clock crosses the midnights around, the days of the instants from `a` to `b` are a partition. -/
theorem Supported.partitions (h : Supported shield zone a b)
    (hcrosses : CrossesMidnights shield zone (a - 3 * msPerDay) (b + 3 * msPerDay)) :
    Partitions (dayStart shield (.named zone)) (dayNext shield (.named zone)) (Within a b) := by
  have hday : msPerDay = 86400000 := rfl
  have hspans := h.spans
  have hnear := h.near
  have hfits : ∀ m, Midnight (a - 4 * msPerDay) (b + 4 * msPerDay) m → Int64 m := by
    intro m hm
    have := hm.2
    unfold Within at this
    unfold Int64 minInt64 maxInt64
    omega
  have hsame : Crosses (reading shield (.named zone)) (instant shield (.named zone))
      (Within (a - 3 * msPerDay) (b + 3 * msPerDay)) (Midnight (a - 4 * msPerDay) (b + 4 * msPerDay)) := by
    intro t m ht hm
    refine hcrosses t m ht ⟨hm.1, ?_⟩
    have := hm.2
    unfold Within at *
    omega
  exact partitions_of_clock (Lib.Clock.partitions msPerDay_pos hspans hsame)
    (fun t ht => hfits _ (hspans.start t ht).1) (fun t ht => hfits _ (hspans.next t ht).1)
    fun t ht => hfits _ (hspans.next t ht).2.2.2

/-- Where no later midnight is given for an earlier instant, a zone whose days contain their instants crosses its
midnights. -/
theorem Supported.crosses (h : Supported shield zone a b)
    (hmono : ∀ m m', Midnight (a - 2 * msPerDay) (b + 2 * msPerDay) m →
      Midnight (a - 2 * msPerDay) (b + 2 * msPerDay) m' → m ≤ m' →
      instant shield (.named zone) m ≤ instant shield (.named zone) m')
    (hwithin : ∀ t, Within a b t → dayStart shield (.named zone) t ≤ t ∧ t < dayNext shield (.named zone) t) :
    CrossesMidnights shield zone a b := by
  have hday : msPerDay = 86400000 := rfl
  have hnear := h.near
  have hB : ∀ t, Within a b t →
      Midnight (a - 2 * msPerDay) (b + 2 * msPerDay) (boundary msPerDay (reading shield (.named zone) t)) ∧
      Midnight (a - 2 * msPerDay) (b + 2 * msPerDay) (boundary msPerDay (reading shield (.named zone) t) + msPerDay) := by
    intro t ht
    have hboundary := h.boundary_near (show Within (a - 3 * msPerDay) (b + 3 * msPerDay) t by
      unfold Within at *
      omega)
    refine ⟨⟨dvd_boundary _ _, ?_⟩, Int.dvd_add (dvd_boundary _ _) (dvd_refl _), ?_⟩
    all_goals
      unfold Within at *
      omega
  have hfits : ∀ m, Midnight (a - 2 * msPerDay) (b + 2 * msPerDay) m → Int64 m := by
    intro m hm
    have := hm.2
    unfold Within at this
    unfold Int64 minInt64 maxInt64
    omega
  have hcrosses := Lib.Clock.crosses msPerDay_pos hmono (fun m hm => hm.1) hB fun t ht => by
    obtain ⟨hfirst, hlast⟩ := hB t ht
    have hstart : dayStart shield (.named zone) t = _ := startOfLocalDayUtcMs_eq (hfits _ hfirst)
    have hnext : dayNext shield (.named zone) t = _ := nextLocalDayStartUtcMs_eq (hfits _ hfirst) (hfits _ hlast)
    have := hwithin t ht
    rwa [hstart, hnext] at this
  intro t m ht hm
  refine hcrosses t m ht ⟨hm.1, ?_⟩
  have := hm.2
  unfold Within at *
  omega

/-- The hour of an instant with an offset is read off its local time. -/
theorem Supported.hour_eq (h : Supported shield zone a b) (ht : Within a b t) :
    startOfLocalHourUtcMs shield t (.named zone) = boundaryAt (reading shield (.named zone)) msPerHour t := by
  have hday : msPerDay = 86400000 := rfl
  have hhour : msPerHour = 3600000 := rfl
  have hnear := h.near
  obtain ⟨off, hoff, hgt, hlt, hreading⟩ := h.reads (show Within (a - 4 * msPerDay) (b + 4 * msPerDay) t by
    unfold Within at *
    omega)
  have hboundary := boundary_le msPerHour_pos (t + off * 1000)
  have hend := lt_boundary_add msPerHour_pos (t + off * 1000)
  have hnonneg := Int.emod_nonneg (t + off * 1000) msPerHour_pos.ne'
  have hmod := Int.emod_lt_of_pos (t + off * 1000) msPerHour_pos
  rw [boundaryAt, hreading]
  unfold Within at ht
  apply startOfLocalHourUtcMs_eq hoff
  all_goals
    unfold Int64 minInt64 maxInt64
    omega

end OptionX.Records.TradeTimeZone
