import Mathlib

/-!
# The civil calendar

Days counted from 1970-01-01, and their dates in the proleptic Gregorian calendar. Years begin in March here, so that the
day that leap years add is the last one.
-/

namespace Lib.Civil

structure Date where
  year : Int
  month : Int
  day : Int
  deriving DecidableEq, Repr

/-- The days before a year. -/
def daysBefore (year : Int) : Int := 365 * year + year / 4 - year / 100 + year / 400

def dayNumber (date : Date) : Int :=
  daysBefore (if date.month ≤ 2 then date.year - 1 else date.year) + (153 * ((date.month + 9) % 12) + 2) / 5 + date.day -
    719469

/-- The year of a day among four centuries, and which day of it that is. -/
def yearAndDay (day : Int) : Int × Int :=
  let century := min 3 (day / 36524)
  let ofCentury := day - 36524 * century
  let cycle := ofCentury / 1461
  let ofCycle := ofCentury - 1461 * cycle
  let year := min 3 (ofCycle / 365)
  (100 * century + 4 * cycle + year, ofCycle - 365 * year)

def dateInYear (year dayOfYear : Int) : Date :=
  let month := (5 * dayOfYear + 2) / 153
  let day := dayOfYear - (153 * month + 2) / 5 + 1
  if month < 10 then ⟨year, month + 3, day⟩ else ⟨year + 1, month - 9, day⟩

def dateOf (days : Int) : Date :=
  let fromMarch := days + 719468
  let p := yearAndDay (fromMarch % 146097)
  dateInYear (fromMarch / 146097 * 400 + p.1) p.2

example : dateOf 19782 = ⟨2024, 2, 29⟩ := by decide

theorem yearAndDay_spec {day : Int} (h0 : 0 ≤ day) (h1 : day < 146097) :
    0 ≤ (yearAndDay day).1 ∧ (yearAndDay day).1 < 400 ∧ 0 ≤ (yearAndDay day).2 ∧ (yearAndDay day).2 ≤ 365 ∧
      365 * (yearAndDay day).1 + (yearAndDay day).1 / 4 - (yearAndDay day).1 / 100 + (yearAndDay day).2 = day := by
  unfold yearAndDay
  dsimp only
  have hcentury : 0 ≤ min 3 (day / 36524) ∧ min 3 (day / 36524) ≤ 3 ∧ 0 ≤ day - 36524 * min 3 (day / 36524) ∧
      day - 36524 * min 3 (day / 36524) ≤ 36524 := by omega
  generalize min 3 (day / 36524) = century at *
  obtain ⟨ofCentury, rfl⟩ : ∃ x, day = 36524 * century + x := ⟨day - 36524 * century, by omega⟩
  simp only [add_sub_cancel_left] at *
  have hcycle : 0 ≤ ofCentury / 1461 ∧ ofCentury / 1461 ≤ 24 ∧ 0 ≤ ofCentury - 1461 * (ofCentury / 1461) ∧
      ofCentury - 1461 * (ofCentury / 1461) ≤ 1460 := by omega
  generalize ofCentury / 1461 = cycle at *
  obtain ⟨ofCycle, rfl⟩ : ∃ x, ofCentury = 1461 * cycle + x := ⟨ofCentury - 1461 * cycle, by omega⟩
  simp only [add_sub_cancel_left] at *
  have hyear : 0 ≤ min 3 (ofCycle / 365) ∧ min 3 (ofCycle / 365) ≤ 3 ∧ 0 ≤ ofCycle - 365 * min 3 (ofCycle / 365) ∧
      ofCycle - 365 * min 3 (ofCycle / 365) ≤ 365 := by omega
  generalize min 3 (ofCycle / 365) = year at *
  have hfour : (100 * century + 4 * cycle + year) / 4 = 25 * century + cycle := by omega
  have hhundred : (100 * century + 4 * cycle + year) / 100 = century := by omega
  omega

theorem dateInYear_spec {year dayOfYear : Int} (h0 : 0 ≤ dayOfYear) (h1 : dayOfYear ≤ 365) :
    dayNumber (dateInYear year dayOfYear) = daysBefore year + dayOfYear - 719468 ∧
      1 ≤ (dateInYear year dayOfYear).month ∧ (dateInYear year dayOfYear).month ≤ 12 ∧
      1 ≤ (dateInYear year dayOfYear).day ∧ (dateInYear year dayOfYear).day ≤ 31 ∧
      year ≤ (dateInYear year dayOfYear).year := by
  unfold dateInYear dayNumber
  dsimp only
  have hmonth : 0 ≤ (5 * dayOfYear + 2) / 153 ∧ (5 * dayOfYear + 2) / 153 ≤ 11 ∧
      1 ≤ dayOfYear - (153 * ((5 * dayOfYear + 2) / 153) + 2) / 5 + 1 ∧
      dayOfYear - (153 * ((5 * dayOfYear + 2) / 153) + 2) / 5 + 1 ≤ 31 := by omega
  generalize (5 * dayOfYear + 2) / 153 = month at *
  split
  · rename_i hspring
    have hback : (month + 3 + 9) % 12 = month := by omega
    dsimp only
    rw [if_neg (by omega), hback]
    omega
  · rename_i hwinter
    have hback : (month - 9 + 9) % 12 = month := by omega
    dsimp only
    rw [if_pos (by omega), hback, add_sub_cancel_right]
    omega

/-- Each day has one date. -/
theorem dayNumber_dateOf (days : Int) : dayNumber (dateOf days) = days := by
  obtain ⟨hyear, hyear', hday, hday', hsum⟩ :=
    @yearAndDay_spec ((days + 719468) % 146097) (by omega) (by omega)
  unfold dateOf
  dsimp only
  rw [(dateInYear_spec hday hday').1, daysBefore]
  generalize (yearAndDay ((days + 719468) % 146097)).1 = year at *
  generalize (yearAndDay ((days + 719468) % 146097)).2 = day at *
  generalize hera : (days + 719468) / 146097 = era at *
  have hfour : (era * 400 + year) / 4 = era * 100 + year / 4 := by omega
  have hhundred : (era * 400 + year) / 100 = era * 4 + year / 100 := by omega
  have hall : (era * 400 + year) / 400 = era := by omega
  omega

/-- Months and days of dates are within their bounds, and so are years from the first day on. -/
theorem dateOf_bounds (days : Int) : 1 ≤ (dateOf days).month ∧ (dateOf days).month ≤ 12 ∧ 1 ≤ (dateOf days).day ∧
    (dateOf days).day ≤ 31 ∧ (-1 ≤ days → 1600 ≤ (dateOf days).year) := by
  obtain ⟨hyear, hyear', hday, hday', hsum⟩ :=
    @yearAndDay_spec ((days + 719468) % 146097) (by omega) (by omega)
  unfold dateOf
  dsimp only
  obtain ⟨-, hm, hm', hd, hd', hy⟩ :=
    @dateInYear_spec ((days + 719468) / 146097 * 400 + (yearAndDay ((days + 719468) % 146097)).1) _ hday hday'
  refine ⟨hm, hm', hd, hd', fun hdays => ?_⟩
  have hera : 4 ≤ (days + 719468) / 146097 := by omega
  omega

end Lib.Civil
