import OptionX.TradingView.StudyAlert

/-!
# When the timing of study alerts stays in range

Texts never overflow; then each reader and each predicate with the exact condition under which no operation leaves the
64-bit range.
-/

namespace OptionX.TradingView

open Lib.Machine

/-! ## Numbers in texts -/

theorem digit_le {ch : UInt8} (h : isDigit ch = true) : ch.toNat - 48 ≤ 9 := by
  simp only [isDigit, Bool.and_eq_true, decide_eq_true_eq] at h
  have := UInt8.le_iff_toNat_le.mp h.2
  have h57 : (57 : UInt8).toNat = 57 := rfl
  omega

theorem decimalValue_lt {digits : Text} (h : ∀ ch ∈ digits, isDigit ch = true) :
    decimalValue digits < 10 ^ digits.length := by
  unfold decimalValue
  induction digits using List.reverseRecOn with
  | nil => decide
  | append_singleton digits ch ih =>
      have hrest := ih fun c hc => h c (List.mem_append_left _ hc)
      have hlast := digit_le (h ch (by simp))
      rw [List.foldl_append, List.foldl_cons, List.foldl_nil, List.length_append, List.length_singleton, pow_succ]
      omega

theorem length_trimCopy (value : Text) : (trimCopy value).length ≤ value.length :=
  (List.rdropWhile_prefix isBlank _).length_le.trans (List.dropWhile_sublist isBlank).length_le

theorem length_afterSign (value : Text) : (afterSign value).length ≤ value.length := by
  cases value with
  | nil => exact le_rfl
  | cons ch rest =>
      rw [afterSign]
      split
      · exact Nat.le_succ _
      · exact le_rfl

theorem stoll_spec {value : Text} {number : Int} (h : stoll value = some number) :
    |number| = decimalValue (afterSign value) ∧ int64Min ≤ number ∧ number ≤ int64Max := by
  simp only [stoll, Option.ite_none_right_eq_some, Option.some.injEq] at h
  obtain ⟨hrange, rfl⟩ := h
  refine ⟨?_, hrange⟩
  split
  · rw [abs_neg, Nat.abs_cast]
  · rw [Nat.abs_cast]

theorem strictInteger_spec {value : Text} {number : Int} (h : strictIntegerStringToI64 value = some number) :
    |number| < 10 ^ value.length ∧ int64Min ≤ number ∧ number ≤ int64Max := by
  simp only [strictIntegerStringToI64, Option.ite_none_right_eq_some, Option.ite_none_left_eq_some] at h
  obtain ⟨-, -, hdigits, hstoll⟩ := h
  obtain ⟨habs, hrange⟩ := stoll_spec hstoll
  refine ⟨?_, hrange⟩
  have hlt := decimalValue_lt (List.all_eq_true.mp hdigits)
  have hlength : (afterSign ((trimCopy value).filter (· ≠ comma))).length ≤ value.length :=
    (length_afterSign _).trans ((List.length_filter_le _ _).trans (length_trimCopy value))
  have hpow := Nat.pow_le_pow_right (by decide : 0 < 10) hlength
  rw [habs]
  exact_mod_cast hlt.trans_le hpow

/-! ## Times in texts -/

theorem fractionMs_lt {fraction : Text} {millis : Int} (h : fractionMs fraction = some millis) : |millis| < 1000 := by
  have hlength : (fraction.take 3 ++ List.replicate (3 - (fraction.take 3).length) 48).length = 3 := by
    have := List.length_take_le 3 fraction
    rw [List.length_append, List.length_replicate]
    omega
  have hlt := (strictInteger_spec h).1
  rwa [hlength] at hlt

theorem readField_le {width least most : Nat} {input rest : Text} {value : Nat}
    (h : readField width least most input = some (value, rest)) : least ≤ value ∧ value ≤ most := by
  simp only [readField, Option.ite_none_right_eq_some, Option.some.injEq, Prod.mk.injEq] at h
  obtain ⟨⟨-, hrange⟩, rfl, -⟩ := h
  exact hrange

/-- The fields of a time that was read. -/
structure Tm.Bounded (tm : Tm) : Prop where
  year : tm.year ≤ 9999
  month : 1 ≤ tm.month ∧ tm.month ≤ 12
  day : 1 ≤ tm.day ∧ tm.day ≤ 31
  hour : tm.hour ≤ 23
  minute : tm.minute ≤ 59
  second : tm.second ≤ 60

theorem getTime_bounded {separator : Text → Option Text} {input : Text} {tm : Tm}
    (h : getTime separator input = some tm) : tm.Bounded := by
  simp only [getTime, Option.bind_eq_bind, Option.bind_eq_some_iff, Option.pure_def, Option.some.injEq,
    Prod.exists] at h
  obtain ⟨year, _, hyear, _, _, month, _, hmonth, _, _, day, _, hday, _, _, hour, _, hhour, _, _, minute, _, hminute,
    _, _, second, _, hsecond, rfl⟩ := h
  exact ⟨(readField_le hyear).2, readField_le hmonth, readField_le hday, (readField_le hhour).2,
    (readField_le hminute).2, (readField_le hsecond).2⟩

theorem daysFromCivil_lt {year month day : Nat} (hyear : year ≤ 9999) (hmonth : 1 ≤ month ∧ month ≤ 12)
    (hday : 1 ≤ day ∧ day ≤ 31) : daysFromCivil year month day < 4000000 := by
  unfold daysFromCivil
  dsimp only
  split <;> omega

theorem utcTimegm_lt {tm : Tm} (h : tm.Bounded) : utcTimegm tm < 400000000000 := by
  have hdays := daysFromCivil_lt h.year h.month h.day
  have := h.hour
  have := h.minute
  have := h.second
  unfold utcTimegm
  omega

theorem splitFraction_lt {value whole : Text} {millis : Int} (h : splitFraction value = (whole, some millis)) :
    |millis| < 1000 := by
  unfold splitFraction at h
  split at h
  · obtain rfl := Option.some.inj (Prod.mk.inj h).2
    decide
  · exact fractionMs_lt (Prod.mk.inj h).2

/-- A time in a text never leaves the range. -/
theorem iso8601_ok (value : Text) : ∃ time, iso8601UtcStringToMs value = .ok time ∧
    ∀ ms ∈ time, int64Min ≤ ms ∧ ms ≤ int64Max := by
  have hnone : ∀ ms ∈ (none : Option Int), int64Min ≤ ms ∧ ms ≤ int64Max := fun ms h => by cases h
  have hmin : int64Min = -9223372036854775808 := by decide
  have hmax : int64Max = 9223372036854775807 := by decide
  unfold iso8601UtcStringToMs
  dsimp only
  split
  · exact ⟨none, rfl, hnone⟩
  · split
    · exact ⟨none, rfl, hnone⟩
    · next whole millis hsplit =>
      have hmillis := abs_lt.mp (splitFraction_lt hsplit)
      split
      · exact ⟨none, rfl, hnone⟩
      · next tm htm =>
        have hbounded : tm.Bounded := by
          rcases Option.or_eq_some_iff.mp htm with h | ⟨-, h⟩
          · exact getTime_bounded h
          · exact getTime_bounded h
        have hseconds := utcTimegm_lt hbounded
        split
        · exact ⟨none, rfl, hnone⟩
        · rw [i64_ok (by omega) (by omega), ok_bind, i64_ok (by omega) (by omega), ok_bind]
          refine ⟨_, rfl, fun ms hms => ?_⟩
          obtain rfl := Option.mem_some.mp hms
          omega

/-! ## The readers -/

variable {F : Type}

/-- The time in a text, if there is one. -/
def timeInText (value : Text) : Option Int := (iso8601UtcStringToMs value).toOption.join

theorem iso8601_eq (value : Text) : iso8601UtcStringToMs value = .ok (timeInText value) := by
  obtain ⟨time, htime, -⟩ := iso8601_ok value
  rw [timeInText, htime]
  rfl

/-- `json_integer` goes no further than this value. -/
def Json.takenAsInteger : Json F → Bool
  | .integer _ | .unsigned _ | .float _ => true
  | .string value => (strictIntegerStringToI64 value).isSome || (timeInText value).isSome
  | _ => false

/-- The value that `json_integer` takes. -/
def firstTaken (object : Json F) (keys : List String) : Option (Json F) :=
  (keys.filterMap fun key => object.member? (text key)).find? Json.takenAsInteger

def Json.ConversionFits (lib : Library F) : Json F → Prop
  | .float value => int64Min ≤ lib.truncate value ∧ lib.truncate value ≤ int64Max
  | _ => True

theorem integerOf_string (lib : Library F) (value : Text) :
    integerOf lib (.string value) = .ok ((strictIntegerStringToI64 value).or (timeInText value)) := by
  simp only [integerOf, Json.int64?]
  cases strictIntegerStringToI64 value with
  | some number => rfl
  | none => exact iso8601_eq value

theorem integerOf_skipped (lib : Library F) {value : Json F} (h : value.takenAsInteger = false) :
    integerOf lib value = .ok none := by
  cases value with
  | string value =>
      rw [integerOf_string]
      simpa [Json.takenAsInteger] using h
  | _ => simp_all [Json.takenAsInteger, integerOf, Json.int64?]

theorem integerOf_taken (lib : Library F) {value : Json F} (h : value.takenAsInteger = true) :
    (∃ number, integerOf lib value = .ok (some number)) ∧ value.ConversionFits lib ∨
      (∃ fault, integerOf lib value = .error fault) ∧ ¬ value.ConversionFits lib := by
  cases value with
  | float value =>
      simp only [integerOf, Json.int64?, Json.ConversionFits]
      by_cases hfits : int64Min ≤ lib.truncate value ∧ lib.truncate value ≤ int64Max
      · exact .inl ⟨⟨_, if_pos hfits⟩, hfits⟩
      · exact .inr ⟨⟨_, if_neg hfits⟩, hfits⟩
  | string value =>
      have hsome : ∃ number, (strictIntegerStringToI64 value).or (timeInText value) = some number := by
        rw [← Option.isSome_iff_exists, Option.isSome_or]
        exact h
      obtain ⟨number, hnumber⟩ := hsome
      rw [integerOf_string, hnumber]
      exact .inl ⟨⟨number, rfl⟩, trivial⟩
  | _ => simp_all [Json.takenAsInteger, integerOf, Json.int64?, Json.ConversionFits]

/-- `json_integer` leaves no range unless it takes a fractional number that no 64-bit integer holds. -/
theorem jsonInteger_ok_iff (lib : Library F) (object : Json F) (fallback : Int) (keys : List String) :
    (∃ number, jsonInteger lib object fallback keys = .ok number) ↔
      ∀ value ∈ firstTaken object keys, value.ConversionFits lib := by
  unfold firstTaken
  induction keys with
  | nil => simp [jsonInteger]
  | cons key keys ih =>
      rw [jsonInteger]
      cases hmember : object.member? (text key) with
      | none => simpa [hmember] using ih
      | some value =>
          have hfirst : (key :: keys).filterMap (fun key => object.member? (text key)) =
              value :: keys.filterMap fun key => object.member? (text key) :=
            List.filterMap_cons_some hmember
          dsimp only
          cases htaken : value.takenAsInteger with
          | false =>
              rw [integerOf_skipped lib htaken, hfirst, List.find?_cons_of_neg (by simp [htaken])]
              exact ih
          | true =>
              rw [hfirst, List.find?_cons_of_pos htaken]
              rcases integerOf_taken lib htaken with ⟨⟨number, hnumber⟩, hfits⟩ | ⟨⟨fault, hfault⟩, hfits⟩
              · simp [hnumber, hfits]
              · simp [hfault, hfits]

/-! ## The timeframe -/

theorem foldlM_factors {factors : List Int} (hfactors : ∀ factor ∈ factors, 1 ≤ factor) {amount : Int}
    (hamount : 0 < amount) (hmax : amount ≤ int64Max) :
    factors.foldlM (fun product factor => i64 (product * factor)) amount =
      if amount * factors.prod ≤ int64Max then .ok (amount * factors.prod) else .error .signed := by
  induction factors generalizing amount with
  | nil => simp [hmax]
  | cons factor factors ih =>
      have hfactor := hfactors factor List.mem_cons_self
      have hrest : ∀ factor ∈ factors, 1 ≤ factor := fun factor hmem => hfactors factor (List.mem_cons_of_mem _ hmem)
      have hprod : 0 < factors.prod := List.prod_pos fun factor hmem => hrest factor hmem
      have hpos : 0 < amount * factor := by positivity
      have hmin : int64Min ≤ 0 := by decide
      rw [List.foldlM_cons, List.prod_cons, ← mul_assoc]
      by_cases hfits : amount * factor ≤ int64Max
      · rw [i64_ok (by omega) hfits, ok_bind]
        exact ih hrest hpos hfits
      · have hlarge : ¬ amount * factor * factors.prod ≤ int64Max := by nlinarith
        have hfault : i64 (amount * factor) = .error .signed := by simp [i64, hfits]
        rw [hfault, error_bind, if_neg hlarge]

theorem timeframeFactors_pos {suffix : UInt8} {factors : List Int} (h : timeframeFactors suffix = some factors) :
    ∀ factor ∈ factors, 1 ≤ factor := by
  unfold timeframeFactors at h
  split_ifs at h <;> obtain rfl := Option.some.inj h <;> decide

theorem timeframeParts_spec {value : Text} {amount : Int} {factors : List Int}
    (h : timeframeParts value = some (amount, factors)) :
    0 < amount ∧ amount ≤ int64Max ∧ ∀ factor ∈ factors, 1 ≤ factor := by
  unfold timeframeParts at h
  dsimp only at h
  split at h
  · cases h
  · split at h
    · cases h
    · next number hnumber =>
      simp only [Option.ite_none_left_eq_some, not_le, Option.map_eq_some_iff, Prod.mk.injEq] at h
      obtain ⟨hpos, _, hfactors, rfl, rfl⟩ := h
      exact ⟨hpos, (strictInteger_spec hnumber).2.2, timeframeFactors_pos hfactors⟩

/-- The seconds of a timeframe text, over all integers. -/
def timeframeSeconds (value : Text) (fallback : Int) : Int :=
  match timeframeParts value with
  | none => fallback
  | some (amount, factors) => amount * factors.prod

/-- The seconds of the text are a 64-bit number. -/
def TimeframeFits (value : Text) : Prop := timeframeSeconds value 0 ≤ int64Max

instance (value : Text) : Decidable (TimeframeFits value) := inferInstanceAs (Decidable (_ ≤ _))

theorem parseTimeframeSeconds_eq (value : Text) (fallback : Int) :
    parseTimeframeSeconds value fallback =
      if TimeframeFits value then .ok (timeframeSeconds value fallback) else .error .signed := by
  unfold parseTimeframeSeconds timeframeSeconds
  cases hparts : timeframeParts value with
  | none =>
      have hfits : TimeframeFits value := by
        rw [TimeframeFits, timeframeSeconds, hparts]
        decide
      rw [if_pos hfits]
  | some parts =>
      obtain ⟨amount, factors⟩ := parts
      obtain ⟨hpos, hmax, hfactors⟩ := timeframeParts_spec hparts
      have hfits : TimeframeFits value ↔ amount * factors.prod ≤ int64Max := by
        rw [TimeframeFits, timeframeSeconds, hparts]
      simp only [hfits]
      exact foldlM_factors hfactors hpos hmax

/-! ## The predicates -/

/-- Milliseconds of a time that may be in seconds, over all integers. -/
def epochMs (value : Int) : Int := if value ≤ 0 then 0 else if value < 100000000000 then value * 1000 else value

theorem normalizeEpochMs_eq (value : Int) : normalizeEpochMs value = .ok (epochMs value) := by
  have hmin : int64Min = -9223372036854775808 := by decide
  have hmax : int64Max = 9223372036854775807 := by decide
  unfold normalizeEpochMs epochMs
  split
  · rfl
  · split
    · exact i64_ok (by omega) (by omega)
    · rfl

def referenceMs (event : NormalizedEvent F) (now : Int) : Int :=
  if 0 < epochMs event.updateTime then epochMs event.updateTime
  else if 0 < epochMs event.time then epochMs event.time
  else now

theorem eventReferenceTimeMs_eq (event : NormalizedEvent F) (now : Int) :
    eventReferenceTimeMs event now = .ok (referenceMs event now) := by
  unfold eventReferenceTimeMs referenceMs
  rw [normalizeEpochMs_eq, ok_bind, normalizeEpochMs_eq]
  split
  · rfl
  · rw [ok_bind]
    split <;> rfl

/-- The alert is too old, over all integers. -/
def Stale (config : TradingViewExtensionBridgeConfig F) (event : NormalizedEvent F) (referenceNow now : Int) : Prop :=
  config.studyAlertRejectHistorical = true ∧ 0 < config.studyAlertMaxSignalAgeSeconds ∧
    0 < referenceMs event referenceNow ∧
    config.studyAlertMaxSignalAgeSeconds * 1000 < now - referenceMs event referenceNow

instance (config : TradingViewExtensionBridgeConfig F) (event : NormalizedEvent F) (referenceNow now : Int) :
    Decidable (Stale config event referenceNow now) := inferInstanceAs (Decidable (_ ∧ _ ∧ _ ∧ _))

/-- Where ages count, the age of the alert and the greatest age in milliseconds are 64-bit numbers. -/
def AgeFits (config : TradingViewExtensionBridgeConfig F) (event : NormalizedEvent F) (referenceNow now : Int) : Prop :=
  config.studyAlertRejectHistorical = true → 0 < config.studyAlertMaxSignalAgeSeconds →
    0 < referenceMs event referenceNow → int64Min ≤ now - referenceMs event referenceNow ∧
      (0 < now - referenceMs event referenceNow → config.studyAlertMaxSignalAgeSeconds * 1000 ≤ int64Max)

theorem i64_error {z : Int} (h : ¬ (int64Min ≤ z ∧ z ≤ int64Max)) : i64 z = .error .signed := if_neg h

/-- Where ages do not count, no alert is too old. -/
theorem isStaleStudyAlert_off {config : TradingViewExtensionBridgeConfig F} {event : NormalizedEvent F}
    {referenceNow : Int} (now : Int) (h : ¬ (config.studyAlertRejectHistorical = true ∧
      0 < config.studyAlertMaxSignalAgeSeconds ∧ 0 < referenceMs event referenceNow)) :
    isStaleStudyAlert config event referenceNow now = .ok false := by
  unfold isStaleStudyAlert
  by_cases hon : config.studyAlertRejectHistorical = true ∧ 0 < config.studyAlertMaxSignalAgeSeconds
  · have hreference : referenceMs event referenceNow ≤ 0 := by
      by_contra hpos
      exact h ⟨hon.1, hon.2, not_le.mp hpos⟩
    rw [if_neg (by simp [hon.1, hon.2]), eventReferenceTimeMs_eq, ok_bind, if_pos hreference, pure_eq_ok]
  · have hoff : (!config.studyAlertRejectHistorical) = true ∨ config.studyAlertMaxSignalAgeSeconds ≤ 0 := by
      rw [Bool.not_eq_true', ← Bool.not_eq_true, ← not_lt]
      tauto
    rw [if_pos hoff, pure_eq_ok]

theorem isStaleStudyAlert_on {config : TradingViewExtensionBridgeConfig F} {event : NormalizedEvent F}
    {referenceNow : Int} (now : Int) (h : config.studyAlertRejectHistorical = true ∧
      0 < config.studyAlertMaxSignalAgeSeconds ∧ 0 < referenceMs event referenceNow) :
    isStaleStudyAlert config event referenceNow now = (do
      let ageMs ← i64 (now - referenceMs event referenceNow)
      if ageMs ≤ 0 then return false
      return (← i64 (config.studyAlertMaxSignalAgeSeconds * 1000)) < ageMs) := by
  unfold isStaleStudyAlert
  rw [if_neg (by simp [h.1, h.2.1]), eventReferenceTimeMs_eq, ok_bind, if_neg (not_le.mpr h.2.2)]

theorem isStaleStudyAlert_exact_iff (config : TradingViewExtensionBridgeConfig F) (event : NormalizedEvent F)
    (referenceNow : Int) {now : Int} (hnow : now ≤ int64Max) :
    isStaleStudyAlert config event referenceNow now = .ok (decide (Stale config event referenceNow now)) ↔
      AgeFits config event referenceNow now := by
  have hmin : int64Min ≤ 0 := by decide
  by_cases hon : config.studyAlertRejectHistorical = true ∧ 0 < config.studyAlertMaxSignalAgeSeconds ∧
      0 < referenceMs event referenceNow
  · have hstale : Stale config event referenceNow now ↔
        config.studyAlertMaxSignalAgeSeconds * 1000 < now - referenceMs event referenceNow := by
      simp [Stale, hon]
    have hfits : AgeFits config event referenceNow now ↔ int64Min ≤ now - referenceMs event referenceNow ∧
        (0 < now - referenceMs event referenceNow → config.studyAlertMaxSignalAgeSeconds * 1000 ≤ int64Max) := by
      simp [AgeFits, hon]
    rw [isStaleStudyAlert_on now hon, hfits]
    simp only [hstale]
    obtain ⟨-, hage, hreference⟩ := hon
    by_cases hleast : int64Min ≤ now - referenceMs event referenceNow
    · rw [i64_ok hleast (by omega), ok_bind]
      by_cases hnone : now - referenceMs event referenceNow ≤ 0
      · have hfresh : ¬ config.studyAlertMaxSignalAgeSeconds * 1000 < now - referenceMs event referenceNow := by omega
        rw [if_pos hnone]
        exact iff_of_true (by simp [hfresh]) ⟨hleast, fun h => absurd h (not_lt.mpr hnone)⟩
      · rw [if_neg hnone]
        by_cases hmost : config.studyAlertMaxSignalAgeSeconds * 1000 ≤ int64Max
        · rw [i64_ok (by omega) hmost]
          exact iff_of_true rfl ⟨hleast, fun _ => hmost⟩
        · rw [i64_error (by omega)]
          exact iff_of_false (by simp) fun h => hmost (h.2 (not_le.mp hnone))
    · rw [i64_error (by omega)]
      exact iff_of_false (by simp) fun h => hleast h.1
  · have hnot : ¬ Stale config event referenceNow now := fun h => hon ⟨h.1, h.2.1, h.2.2.1⟩
    have hfits : AgeFits config event referenceNow now := fun h1 h2 h3 => absurd ⟨h1, h2, h3⟩ hon
    rw [isStaleStudyAlert_off now hon]
    exact iff_of_true (by simp [hnot]) hfits

def effectiveSeconds (config : TradingViewExtensionBridgeConfig F) (event : NormalizedEvent F) : Int :=
  if 0 < event.timeframeSeconds then event.timeframeSeconds
  else timeframeSeconds event.timeframe config.studyAlertDefaultTimeframeSeconds

def barMs (event : NormalizedEvent F) : Int := epochMs (if 0 < event.barTime then event.barTime else event.time)

/-- The alert comes late in its bar, over all integers. -/
def WithinClose (config : TradingViewExtensionBridgeConfig F) (event : NormalizedEvent F) (now : Int) : Prop :=
  0 < barMs event ∧ 0 < effectiveSeconds config event ∧
    barMs event + effectiveSeconds config event * 1000 - config.studyAlertCloseWindowSeconds * 1000 ≤
      referenceMs event now

instance (config : TradingViewExtensionBridgeConfig F) (event : NormalizedEvent F) (now : Int) :
    Decidable (WithinClose config event now) := inferInstanceAs (Decidable (_ ∧ _ ∧ _))

/-- The timeframe, where it comes from its text, is a 64-bit number, and where there is a bar so are its close and the
window in milliseconds. -/
def CloseFits (config : TradingViewExtensionBridgeConfig F) (event : NormalizedEvent F) : Prop :=
  (event.timeframeSeconds ≤ 0 → TimeframeFits event.timeframe) ∧
    (0 < barMs event → 0 < effectiveSeconds config event →
      barMs event + effectiveSeconds config event * 1000 ≤ int64Max ∧
        config.studyAlertCloseWindowSeconds * 1000 ≤ int64Max)

theorem effectiveTimeframeSeconds_eq (config : TradingViewExtensionBridgeConfig F) (event : NormalizedEvent F) :
    effectiveTimeframeSeconds config event =
      if event.timeframeSeconds ≤ 0 → TimeframeFits event.timeframe then .ok (effectiveSeconds config event)
      else .error .signed := by
  unfold effectiveTimeframeSeconds effectiveSeconds
  by_cases hown : 0 < event.timeframeSeconds
  · rw [if_pos hown, if_pos hown, if_pos fun h => absurd h (not_le.mpr hown)]
  · rw [if_neg hown, if_neg hown, parseTimeframeSeconds_eq]
    simp [not_lt.mp hown]

theorem isWithinCloseWindow_exact_iff {config : TradingViewExtensionBridgeConfig F}
    (hwindow : 0 ≤ config.studyAlertCloseWindowSeconds) (event : NormalizedEvent F) (now : Int) :
    isWithinCloseWindow config event now = .ok (decide (WithinClose config event now)) ↔ CloseFits config event := by
  have hmin : int64Min ≤ -int64Max := by decide
  have hmax : 0 ≤ int64Max := by decide
  have hbarMs : normalizeEpochMs (if 0 < event.barTime then event.barTime else event.time) = .ok (barMs event) :=
    normalizeEpochMs_eq _
  unfold isWithinCloseWindow
  rw [hbarMs, ok_bind, effectiveTimeframeSeconds_eq, eventReferenceTimeMs_eq]
  by_cases htimeframe : event.timeframeSeconds ≤ 0 → TimeframeFits event.timeframe
  · rw [if_pos htimeframe, ok_bind]
    by_cases hbar : 0 < barMs event ∧ 0 < effectiveSeconds config event
    · have hwithin : WithinClose config event now ↔
          barMs event + effectiveSeconds config event * 1000 - config.studyAlertCloseWindowSeconds * 1000 ≤
            referenceMs event now := by
        simp [WithinClose, hbar]
      have hfits : CloseFits config event ↔
          barMs event + effectiveSeconds config event * 1000 ≤ int64Max ∧
            config.studyAlertCloseWindowSeconds * 1000 ≤ int64Max :=
        ⟨fun h => h.2 hbar.1 hbar.2, fun h => ⟨htimeframe, fun _ _ => h⟩⟩
      rw [if_neg (by omega), ok_bind, hfits]
      simp only [hwithin]
      by_cases hclose : barMs event + effectiveSeconds config event * 1000 ≤ int64Max
      · rw [i64_ok (by omega) (by omega), ok_bind, i64_ok (by omega) hclose, ok_bind]
        by_cases hmost : config.studyAlertCloseWindowSeconds * 1000 ≤ int64Max
        · rw [i64_ok (by omega) hmost, ok_bind, i64_ok (by omega) (by omega), ok_bind]
          exact iff_of_true rfl ⟨hclose, hmost⟩
        · rw [i64_error (by omega)]
          exact iff_of_false (by simp) fun h => hmost h.2
      · refine iff_of_false ?_ fun h => hclose h.1
        by_cases hspan : effectiveSeconds config event * 1000 ≤ int64Max
        · rw [i64_ok (by omega) hspan, ok_bind, i64_error (by omega)]
          simp
        · rw [i64_error (by omega)]
          simp
    · have hnot : ¬ WithinClose config event now := fun h => hbar ⟨h.1, h.2.1⟩
      rw [if_pos (by omega)]
      exact iff_of_true (by simp [hnot]) ⟨htimeframe, fun h1 h2 => absurd ⟨h1, h2⟩ hbar⟩
  · rw [if_neg htimeframe]
    exact iff_of_false (by simp) fun h => htimeframe h.1

end OptionX.TradingView
