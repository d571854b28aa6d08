import OptionX.TradingSystem.Filters

/-!
# Dated occurrences of a daily window

An occurrence of a window starts on a local day and may end on the next. The code looks at the second of the day
instead: the day that an occurrence around an instant starts on is the instant's own or the one before.
-/

namespace OptionX.TradingSystem

/-- The local day of a local second, and the weekday of a local day; the first of January 1970 was a Thursday. -/
def civilDay (localSec : Int) : Int := localSec / 86400

def civilSecond (localSec : Int) : Int := localSec % 86400

def weekdayOfDay (day : Int) : Int := (day + 4) % 7

theorem weekdayOfDay_pred (day : Int) : weekdayOfDay (day - 1) = previousWeekday (weekdayOfDay day) := by
  unfold weekdayOfDay previousWeekday sunday saturday
  split <;> omega

namespace TradingTimeWindow

/-- How long an occurrence lasts. -/
def span (w : TradingTimeWindow) : Int :=
  if w.startSecond < w.endSecond then w.endSecond - w.startSecond else 86400 + w.endSecond - w.startSecond

/-- The occurrence that starts on this day covers the instant. -/
def Covers (w : TradingTimeWindow) (day localSec : Int) : Prop :=
  86400 * day + w.startSecond ≤ localSec ∧ localSec < 86400 * day + w.startSecond + w.span

/-- The day on which an occurrence around the instant starts. -/
def startDay (w : TradingTimeWindow) (localSec : Int) : Int :=
  if w.endSecond < w.startSecond ∧ civilSecond localSec < w.endSecond then civilDay localSec - 1 else civilDay localSec

theorem valid_iff {w : TradingTimeWindow} :
    w.valid = true ↔ w.startSecond < 86400 ∧ w.endSecond ≤ 86400 ∧ w.startSecond ≠ w.endSecond := by
  simp [valid, and_assoc]

theorem covers_iff {w : TradingTimeWindow} (h : w.valid = true) {day localSec : Int} :
    w.Covers day localSec ↔ w.contains (civilSecond localSec).toNat = true ∧ day = w.startDay localSec := by
  obtain ⟨hstart, hend, hne⟩ := valid_iff.mp h
  have hlo : 0 ≤ localSec % 86400 := Int.emod_nonneg _ (by decide)
  have hhi : localSec % 86400 < 86400 := Int.emod_lt_of_pos _ (by decide)
  have hsplit := Int.mul_ediv_add_emod localSec 86400
  have hsecond : ¬ 86400 ≤ (localSec % 86400).toNat := by omega
  unfold Covers span contains startDay civilSecond civilDay
  simp only [h, Bool.not_true, Bool.false_or, decide_eq_true_eq, hsecond, if_false]
  generalize localSec / 86400 = today at *
  generalize localSec % 86400 = second at *
  by_cases hlt : w.startSecond < w.endSecond
  · simp only [hlt, if_true, Bool.and_eq_true, decide_eq_true_eq]
    rw [if_neg (by omega)]
    omega
  · simp only [hlt, if_false, Bool.or_eq_true, decide_eq_true_eq]
    split <;> omega

end TradingTimeWindow

namespace TradingWindowFilter

variable {f : TradingWindowFilter}

theorem permits_iff {weekday : Int} :
    f.permits weekday = true ↔ f.allowedWeekdays = [] ∨ weekday ∈ f.allowedWeekdays := by
  simp [permits]

theorem valid_iff : f.valid = true ↔ (∀ w ∈ f.allowedWindows, w.valid = true) ∧
    (∀ w ∈ f.deniedWindows, w.valid = true) ∧
    ∀ weekday ∈ f.allowedWeekdays, sunday ≤ weekday ∧ weekday ≤ saturday := by
  simp [valid, and_assoc]

theorem windowWeekday_eq (w : TradingTimeWindow) (localSec : Int) :
    windowWeekday w (civilSecond localSec).toNat (weekdayOfDay (civilDay localSec)) =
      weekdayOfDay (w.startDay localSec) := by
  have hlo : 0 ≤ civilSecond localSec := Int.emod_nonneg _ (by decide)
  have hiff : (civilSecond localSec).toNat < w.endSecond ↔ civilSecond localSec < w.endSecond := by omega
  unfold windowWeekday TradingTimeWindow.startDay
  simp only [hiff]
  split
  · exact (weekdayOfDay_pred _).symm
  · rfl

theorem scanAllowed_isAllowed (secondOfDay : Nat) (weekday : Int) (matchesTime : Bool)
    (windows : List TradingTimeWindow) :
    (f.scanAllowed secondOfDay weekday matchesTime windows).isAllowed = true ↔ ∃ w ∈ windows,
      w.contains secondOfDay = true ∧ f.permits (windowWeekday w secondOfDay weekday) = true := by
  induction windows generalizing matchesTime with
  | nil => simp [scanAllowed, PolicyDecision.isAllowed, PolicyDecision.reject]
  | cons w windows ih =>
      rw [scanAllowed]
      cases hcontains : w.contains secondOfDay with
      | false => simp [hcontains, ih]
      | true =>
          cases hpermits : f.permits (windowWeekday w secondOfDay weekday) with
          | false => simp [hpermits, ih]
          | true => simp [hcontains, hpermits, PolicyDecision.isAllowed, PolicyDecision.allow]

end TradingWindowFilter

end OptionX.TradingSystem
