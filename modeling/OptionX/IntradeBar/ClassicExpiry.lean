import OptionX.IntradeBar.TradingConditionManager

/-!
# Expiries of classic options

What `AccountInfoData.hpp` asks of the expiry of a classic option, and the two conversions between the expiry and the
minutes until it.
-/

namespace OptionX.IntradeBar.TradingConditionManager

open TradeExecution (OptionType)

variable {F : Type} (T : TimeShield)

namespace AccountInfoData

/-- `EXPIRATION_DATE_AVAILABLE` of `get_info_bool`. -/
def expirationDateAvailable (account : AccountInfoData F) (optionType : OptionType) (timestamp expiryTime : Int) :
    Bool :=
  if optionType = .sprint then true
  else
    let secOfDay := T.secOfDay expiryTime
    if secOfDay < account.startTime ∨ account.endTime < secOfDay then false
    else if expiryTime.tmod 300 ≠ 0 then false
    else 180 ≤ expiryTime - timestamp

/-- The second of day lies in the session. -/
def InSession (account : AccountInfoData F) (time : Int) : Prop :=
  account.startTime ≤ T.secOfDay time ∧ T.secOfDay time ≤ account.endTime

end AccountInfoData

/-- The seconds until the expiry as the broker counts them; zero for an expiry that it does not have. -/
def calcExpiration (timestamp expiryTime : Int) : Int :=
  if expiryTime.tmod 300 ≠ 0 then 0
  else
    let diff := expiryTime - timestamp
    if diff ≤ 180 then 0 else ((((diff - 1).tdiv 60 - 3).tdiv 5) * 5 + 5) * 60

/-- The expiry after so many minutes. -/
def calcExpiryTime (timestamp expiration : Int) : Int :=
  if expiration.tmod 5 ≠ 0 ∨ expiration < 5 then 0
  else
    let timestampFuture := timestamp + (expiration + 3) * 60
    timestampFuture - timestampFuture.tmod 300

end OptionX.IntradeBar.TradingConditionManager
