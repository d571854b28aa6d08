import OptionX.IntradeBar.ClassicExpiry

/-!
# The rules of classic expiries in whole five minutes

Each of the three formulas as a statement about one period of five minutes; the conversions are inverse on the expiries
that lie more than three minutes ahead.
-/

namespace OptionX.IntradeBar.TradingConditionManager

open TradeExecution (OptionType)

variable {F : Type} {T : TimeShield} {account : AccountInfoData F} {timestamp expiryTime : Int}

theorem expirationDateAvailable_iff : account.expirationDateAvailable T .classic timestamp expiryTime = true ↔
    account.InSession T expiryTime ∧ 300 ∣ expiryTime ∧ 180 ≤ expiryTime - timestamp := by
  simp only [AccountInfoData.expirationDateAvailable, AccountInfoData.InSession, Int.dvd_iff_tmod_eq_zero]
  split
  · next h => simp at h
  · split
    · next hout =>
      refine iff_of_false Bool.noConfusion fun h => ?_
      omega
    · next hin =>
      split
      · next hrest => simp [hrest]
      · next hwhole =>
        rw [not_ne_iff] at hwhole
        simp [hwhole]
        omega

/-- The count rounds the time until the expiry up to whole periods, three minutes left out. -/
theorem calcExpiration_eq (hdvd : 300 ∣ expiryTime) (hlead : 180 < expiryTime - timestamp) :
    calcExpiration timestamp expiryTime = (expiryTime - timestamp - 181) / 300 * 300 + 300 := by
  have hwhole : expiryTime.tmod 300 = 0 := Int.dvd_iff_tmod_eq_zero.mp hdvd
  have hminutes : (expiryTime - timestamp - 1).tdiv 60 = (expiryTime - timestamp - 1) / 60 :=
    Int.tdiv_eq_ediv_of_nonneg (by omega)
  simp only [calcExpiration]
  rw [if_neg (not_not.mpr hwhole), if_neg (by omega), hminutes, Int.tdiv_eq_ediv_of_nonneg (by omega)]
  omega

theorem calcExpiration_of_close (h : expiryTime - timestamp ≤ 180) : calcExpiration timestamp expiryTime = 0 := by
  unfold calcExpiration
  split
  · rfl
  · exact if_pos h

/-- The expiry is the last whole period within the minutes and the lead. -/
theorem calcExpiryTime_eq (hts : 0 ≤ timestamp) {expiration : Int} (hleast : 5 ≤ expiration) (hdvd : 5 ∣ expiration) :
    calcExpiryTime timestamp expiration = (timestamp + (expiration + 3) * 60) / 300 * 300 := by
  have hwhole : expiration.tmod 5 = 0 := Int.dvd_iff_tmod_eq_zero.mp hdvd
  simp only [calcExpiryTime]
  rw [if_neg (by omega), Int.tmod_eq_emod_of_nonneg (by omega)]
  omega

theorem nextClassicExpiry_eq (hts : 0 ≤ timestamp) : nextClassicExpiry timestamp = (timestamp + 480) / 300 * 300 := by
  simp only [nextClassicExpiry]
  rw [Int.tmod_eq_emod_of_nonneg (by omega)]
  omega

theorem calcExpiryTime_calcExpiration (hts : 0 ≤ timestamp) (hdvd : 300 ∣ expiryTime)
    (hlead : 180 < expiryTime - timestamp) :
    calcExpiryTime timestamp ((calcExpiration timestamp expiryTime).tdiv 60) = expiryTime := by
  rw [calcExpiration_eq hdvd hlead, Int.tdiv_eq_ediv_of_nonneg (by omega), calcExpiryTime_eq hts (by omega) (by omega)]
  omega

theorem calcExpiryTime_lead (hts : 0 ≤ timestamp) {expiration : Int} (hleast : 5 ≤ expiration)
    (hdvd : 5 ∣ expiration) : 180 < calcExpiryTime timestamp expiration - timestamp := by
  rw [calcExpiryTime_eq hts hleast hdvd]
  omega

theorem calcExpiration_calcExpiryTime (hts : 0 ≤ timestamp) {expiration : Int} (hleast : 5 ≤ expiration)
    (hdvd : 5 ∣ expiration) : calcExpiration timestamp (calcExpiryTime timestamp expiration) = 60 * expiration := by
  have hlead := calcExpiryTime_lead hts hleast hdvd
  rw [calcExpiryTime_eq hts hleast hdvd] at hlead ⊢
  rw [calcExpiration_eq (Dvd.intro_left _ rfl) hlead]
  omega

/-- An expiry that the check accepts is three minutes ahead to the second, or the next one or later. -/
theorem nextClassicExpiry_le (hts : 0 ≤ timestamp) (hdvd : 300 ∣ expiryTime) (hlead : 180 < expiryTime - timestamp) :
    nextClassicExpiry timestamp ≤ expiryTime := by
  rw [nextClassicExpiry_eq hts]
  omega

theorem nextClassicExpiry_lead (hts : 0 ≤ timestamp) :
    300 ∣ nextClassicExpiry timestamp ∧ 180 < nextClassicExpiry timestamp - timestamp := by
  rw [nextClassicExpiry_eq hts]
  omega

/-- The next expiry is the earliest one unless three minutes are enough. -/
theorem nextClassicExpiry_isLeast_iff (hts : 0 ≤ timestamp) :
    IsLeast {expiry | account.expirationDateAvailable T .classic timestamp expiry = true}
        (nextClassicExpiry timestamp) ↔
      account.InSession T (nextClassicExpiry timestamp) ∧
        ¬ account.expirationDateAvailable T .classic timestamp (timestamp + 180) = true := by
  obtain ⟨hdvd, hlead⟩ := nextClassicExpiry_lead hts
  constructor
  · rintro ⟨hmem, hleast⟩
    refine ⟨(expirationDateAvailable_iff.mp hmem).1, fun hclose => ?_⟩
    have := hleast hclose
    omega
  · rintro ⟨hsession, hclose⟩
    refine ⟨expirationDateAvailable_iff.mpr ⟨hsession, hdvd, hlead.le⟩, fun expiry hexpiry => ?_⟩
    obtain ⟨-, hexpiryDvd, hexpiryLead⟩ := expirationDateAvailable_iff.mp hexpiry
    rcases hexpiryLead.lt_or_eq with hlt | heq
    · exact nextClassicExpiry_le hts hexpiryDvd hlt
    · have hexact : expiry = timestamp + 180 := by omega
      rw [hexact] at hexpiry
      exact absurd hexpiry hclose

end OptionX.IntradeBar.TradingConditionManager
