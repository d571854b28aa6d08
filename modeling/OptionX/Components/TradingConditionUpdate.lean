import OptionX.Storage.TradeRecordDB

/-!
# Trading condition updates

`TradingConditionUpdate.hpp`, and the cache of `TradingConditionHub.hpp` that merges them. Amounts, payouts and refunds
are doubles in the source, which are only copied and compared here: they are an arbitrary type `F`.
-/

namespace OptionX.Components

open Storage (PlatformType)
open TradeExecution (AccountType OptionType)
open TradingSystem (CurrencyType)

/-- The identity fields of an update. -/
structure ConditionScope where
  symbol : String := ""
  platformType : PlatformType := .unknown
  accountType : AccountType := .unknown
  currency : CurrencyType := .unknown
  optionType : OptionType := .unknown
  deriving DecidableEq

structure TradingConditionUpdate (F : Type) extends ConditionScope where
  timestamp : Int := 0
  marketOpen : Option Bool := none
  tradable : Option Bool := none
  payout : Option F := none
  minAmount : Option F := none
  maxAmount : Option F := none
  minRefund : Option F := none
  maxRefund : Option F := none
  minDuration : Option Nat := none
  maxDuration : Option Nat := none
  maxOpenTrades : Option Nat := none
  sessionStart : Option Int := none
  sessionEnd : Option Int := none
  message : String := ""
  deriving DecidableEq

namespace TradingConditionUpdate

variable {F : Type}

abbrev scope (u : TradingConditionUpdate F) : ConditionScope := u.toConditionScope

def sameScope (u other : TradingConditionUpdate F) : Bool := u.scope = other.scope

def mergePatch (u patch : TradingConditionUpdate F) : TradingConditionUpdate F :=
  { u with
    timestamp := if patch.timestamp ≠ 0 then patch.timestamp else u.timestamp
    marketOpen := patch.marketOpen <|> u.marketOpen
    tradable := patch.tradable <|> u.tradable
    payout := patch.payout <|> u.payout
    minAmount := patch.minAmount <|> u.minAmount
    maxAmount := patch.maxAmount <|> u.maxAmount
    minRefund := patch.minRefund <|> u.minRefund
    maxRefund := patch.maxRefund <|> u.maxRefund
    minDuration := patch.minDuration <|> u.minDuration
    maxDuration := patch.maxDuration <|> u.maxDuration
    maxOpenTrades := patch.maxOpenTrades <|> u.maxOpenTrades
    sessionStart := patch.sessionStart <|> u.sessionStart
    sessionEnd := patch.sessionEnd <|> u.sessionEnd
    message := if patch.message = "" then u.message else patch.message }

@[simp] theorem mergePatch_scope (u patch : TradingConditionUpdate F) : (u.mergePatch patch).scope = u.scope := rfl

/-- `upsert_cached_update_no_lock`: the update goes into the first cached one of its scope. -/
def upsertCachedUpdate : List (TradingConditionUpdate F) → TradingConditionUpdate F → List (TradingConditionUpdate F)
  | [], update => [update]
  | cached :: rest, update =>
      if cached.sameScope update then cached.mergePatch update :: rest
      else cached :: upsertCachedUpdate rest update

/-- The fold of updates by scope, as `publish` keeps it. -/
def cachedUpdates (updates : List (TradingConditionUpdate F)) : List (TradingConditionUpdate F) :=
  updates.foldl upsertCachedUpdate []

/-- `current_condition`. -/
def currentCondition (cached : List (TradingConditionUpdate F)) (scope : ConditionScope) :
    Option (TradingConditionUpdate F) :=
  cached.find? fun c => c.scope = scope

@[simp] theorem currentCondition_nil (scope : ConditionScope) :
    currentCondition ([] : List (TradingConditionUpdate F)) scope = none := rfl

theorem upsert_cons_of_eq {c u : TradingConditionUpdate F} (h : c.scope = u.scope)
    (cs : List (TradingConditionUpdate F)) : upsertCachedUpdate (c :: cs) u = c.mergePatch u :: cs := by
  simp [upsertCachedUpdate, sameScope, h]

theorem upsert_cons_of_ne {c u : TradingConditionUpdate F} (h : c.scope ≠ u.scope)
    (cs : List (TradingConditionUpdate F)) :
    upsertCachedUpdate (c :: cs) u = c :: upsertCachedUpdate cs u := by
  simp [upsertCachedUpdate, sameScope, h]

theorem currentCondition_cons_of_eq {c : TradingConditionUpdate F} {scope : ConditionScope} (h : c.scope = scope)
    (cs : List (TradingConditionUpdate F)) : currentCondition (c :: cs) scope = some c := by
  simp [currentCondition, h]

theorem currentCondition_cons_of_ne {c : TradingConditionUpdate F} {scope : ConditionScope} (h : c.scope ≠ scope)
    (cs : List (TradingConditionUpdate F)) : currentCondition (c :: cs) scope = currentCondition cs scope := by
  simp [currentCondition, h]

/-- An update changes the condition of its own scope. -/
theorem currentCondition_upsert (cached : List (TradingConditionUpdate F)) (u : TradingConditionUpdate F)
    (scope : ConditionScope) :
    currentCondition (upsertCachedUpdate cached u) scope =
      if u.scope = scope then some (((currentCondition cached scope).map (·.mergePatch u)).getD u)
      else currentCondition cached scope := by
  induction cached with
  | nil => by_cases h : u.scope = scope <;> simp [upsertCachedUpdate, currentCondition, h]
  | cons c cs ih =>
      by_cases hc : c.scope = u.scope
      · rw [upsert_cons_of_eq hc]
        by_cases h : c.scope = scope
        · rw [currentCondition_cons_of_eq (c := c.mergePatch u) h, currentCondition_cons_of_eq h,
            if_pos (hc.symm.trans h)]
          rfl
        · rw [currentCondition_cons_of_ne (c := c.mergePatch u) h, currentCondition_cons_of_ne h,
            if_neg fun hu => h (hc.trans hu)]
      · rw [upsert_cons_of_ne hc]
        by_cases h : c.scope = scope
        · rw [currentCondition_cons_of_eq h, currentCondition_cons_of_eq h, if_neg fun hu => hc (h.trans hu.symm)]
        · rw [currentCondition_cons_of_ne h, currentCondition_cons_of_ne h, ih]

/-- What a patch makes of the condition of its scope. -/
def patched (condition : Option (TradingConditionUpdate F)) (u : TradingConditionUpdate F) :
    Option (TradingConditionUpdate F) := some ((condition.map (·.mergePatch u)).getD u)

/-- Each scope sees the updates of its own. -/
theorem currentCondition_foldl (us cached : List (TradingConditionUpdate F)) (scope : ConditionScope) :
    currentCondition (us.foldl upsertCachedUpdate cached) scope =
      (us.filter (·.scope = scope)).foldl patched (currentCondition cached scope) := by
  induction us generalizing cached with
  | nil => rfl
  | cons u us ih =>
      rw [List.foldl_cons, ih, currentCondition_upsert]
      by_cases h : u.scope = scope <;> simp [h, patched]

/-- A condition is kept once for each scope. -/
theorem upsert_scopes (cached : List (TradingConditionUpdate F)) (u : TradingConditionUpdate F) :
    (upsertCachedUpdate cached u).map (·.scope) =
      if u.scope ∈ cached.map (·.scope) then cached.map (·.scope) else cached.map (·.scope) ++ [u.scope] := by
  induction cached with
  | nil => simp [upsertCachedUpdate]
  | cons c cs ih =>
      by_cases hc : c.scope = u.scope
      · rw [upsert_cons_of_eq hc, if_pos (by simp [hc])]
        rfl
      · rw [upsert_cons_of_ne hc, List.map_cons, ih, List.map_cons]
        by_cases hm : u.scope ∈ cs.map (·.scope)
        · rw [if_pos hm, if_pos (List.mem_cons_of_mem _ hm)]
        · rw [if_neg hm, if_neg fun hmem => (List.mem_cons.mp hmem).elim (fun h => hc h.symm) hm]
          rfl

end TradingConditionUpdate

end OptionX.Components
