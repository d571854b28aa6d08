import OptionX.IntradeBar.TradingConditionManager

/-!
# What a step of the trading condition manager does to the merged conditions

Looked at one scope at a time, a step publishes one update at most: the new snapshot where it is new or has changed,
or the retirement where there is no new snapshot. From the old snapshot, the new one and the merged condition before
the step follows the merged condition after it.
-/

namespace OptionX.IntradeBar.TradingConditionManager

open Components (ConditionScope TradingConditionUpdate)
open Components.TradingConditionUpdate (currentCondition cachedUpdates patched upsertCachedUpdate)
open TradeExecution (OptionType)

variable {F : Type}

/-! ## Snapshots -/

/-- The snapshot of a scope. -/
def snapshotOf (snapshots : List (TradingConditionUpdate F)) (k : ConditionScope) :
    Option (TradingConditionUpdate F) := snapshots.find? (·.scope = k)

theorem filter_scope {l : List (TradingConditionUpdate F)} (h : (l.map (·.scope)).Nodup) (k : ConditionScope) :
    l.filter (·.scope = k) = (snapshotOf l k).toList := by
  induction l with
  | nil => rfl
  | cons u us ih =>
      obtain ⟨hu, hus⟩ := List.nodup_cons.mp h
      by_cases hk : u.scope = k
      · have hnone : us.filter (·.scope = k) = [] := by
          simp only [List.filter_eq_nil_iff, decide_eq_true_eq]
          intro v hv hvk
          exact hu (List.mem_map.mpr ⟨v, hv, hvk.trans hk.symm⟩)
        simp [snapshotOf, hk, hnone]
      · simpa [snapshotOf, hk] using ih hus

theorem snapshotOf_eq_none {l : List (TradingConditionUpdate F)} {k : ConditionScope} :
    snapshotOf l k = none ↔ k ∉ l.map (·.scope) := by
  simp [snapshotOf]

theorem snapshotOf_some {l : List (TradingConditionUpdate F)} {k : ConditionScope} {u : TradingConditionUpdate F}
    (h : snapshotOf l k = some u) : u ∈ l ∧ u.scope = k :=
  ⟨List.mem_of_find?_eq_some h, by simpa using List.find?_some h⟩

theorem snapshotOf_mem {l : List (TradingConditionUpdate F)} (h : (l.map (·.scope)).Nodup)
    {u : TradingConditionUpdate F} (hu : u ∈ l) : snapshotOf l u.scope = some u := by
  have hmem : u ∈ l.filter (·.scope = u.scope) := List.mem_filter.mpr ⟨hu, by simp⟩
  rw [filter_scope h, Option.mem_toList] at hmem
  exact hmem

theorem find_sameScope (l : List (TradingConditionUpdate F)) (u : TradingConditionUpdate F) :
    l.find? u.sameScope = snapshotOf l u.scope := by
  simp only [snapshotOf]
  congr 1
  funext c
  simp [TradingConditionUpdate.sameScope, eq_comm]

theorem any_sameScope {l : List (TradingConditionUpdate F)} {u : TradingConditionUpdate F} :
    l.any u.sameScope = (snapshotOf l u.scope).isSome := by
  rw [← find_sameScope, List.isSome_find?]

/-- A snapshot has the fields that its option type calls for, and no message. -/
structure Full (u : TradingConditionUpdate F) : Prop where
  marketOpen : u.marketOpen.isSome
  tradable : u.tradable.isSome
  minAmount : u.minAmount.isSome
  maxAmount : u.maxAmount.isSome
  maxOpenTrades : u.maxOpenTrades.isSome
  sessionStart : u.sessionStart.isSome
  sessionEnd : u.sessionEnd.isSome
  durations : if u.optionType = .sprint then u.minDuration.isSome ∧ u.maxDuration.isSome
    else u.minDuration = none ∧ u.maxDuration = none
  others : u.payout = none ∧ u.minRefund = none ∧ u.maxRefund = none
  message : u.message = ""

/-- A merged condition has no field that the snapshots of its scope do not set. -/
structure Shaped (m : TradingConditionUpdate F) : Prop where
  durations : m.optionType ≠ .sprint → m.minDuration = none ∧ m.maxDuration = none
  others : m.payout = none ∧ m.minRefund = none ∧ m.maxRefund = none

theorem Full.shaped {u : TradingConditionUpdate F} (h : Full u) : Shaped u where
  durations hu := by simpa [hu] using h.durations
  others := h.others

theorem Shaped.merge {m u : TradingConditionUpdate F} (hm : Shaped m) (hu : Shaped u) (h : m.scope = u.scope) :
    Shaped (m.mergePatch u) where
  durations ho := by
    have hmd := hm.durations ho
    have hud := hu.durations (by rw [← show m.optionType = u.optionType from congrArg (·.optionType) h]; exact ho)
    simp [TradingConditionUpdate.mergePatch, hmd, hud]
  others := by simp [TradingConditionUpdate.mergePatch, hm.others, hu.others]

theorem retired_shaped (p : TradingConditionUpdate F) (t : Int) (message : String) : Shaped (retired p t message) where
  durations _ := ⟨rfl, rfl⟩
  others := ⟨rfl, rfl, rfl⟩

section

variable [DecidableEq F]

/-- The condition has all values of the snapshot, but perhaps another message. -/
def Agrees (m u : TradingConditionUpdate F) : Prop := sameValues { m with message := "" } u = true

theorem sameValues_iff {m u : TradingConditionUpdate F} (hu : Full u) :
    sameValues m u = true ↔ Agrees m u ∧ m.message = "" := by
  simp only [Agrees, sameValues, TradingConditionUpdate.sameScope, hu.message, decide_eq_true_eq]
  tauto

theorem Agrees.trans {m p u : TradingConditionUpdate F} (h : Agrees m p) (hpu : sameValues p u = true) :
    Agrees m u := by
  simp only [Agrees, sameValues, TradingConditionUpdate.sameScope, decide_eq_true_eq] at h hpu ⊢
  simp_all

theorem Agrees.self {u : TradingConditionUpdate F} (hu : Full u) : Agrees u u := by
  simp [Agrees, sameValues, TradingConditionUpdate.sameScope, hu.message]

theorem Agrees.merge {m u : TradingConditionUpdate F} (hm : Shaped m) (hu : Full u) (h : m.scope = u.scope) :
    Agrees (m.mergePatch u) u := by
  obtain ⟨marketOpen, h1⟩ := Option.isSome_iff_exists.mp hu.marketOpen
  obtain ⟨tradable, h2⟩ := Option.isSome_iff_exists.mp hu.tradable
  obtain ⟨minAmount, h3⟩ := Option.isSome_iff_exists.mp hu.minAmount
  obtain ⟨maxAmount, h4⟩ := Option.isSome_iff_exists.mp hu.maxAmount
  obtain ⟨maxOpenTrades, h5⟩ := Option.isSome_iff_exists.mp hu.maxOpenTrades
  obtain ⟨sessionStart, h6⟩ := Option.isSome_iff_exists.mp hu.sessionStart
  obtain ⟨sessionEnd, h7⟩ := Option.isSome_iff_exists.mp hu.sessionEnd
  have hdurations : (u.minDuration <|> m.minDuration) = u.minDuration ∧
      (u.maxDuration <|> m.maxDuration) = u.maxDuration := by
    have hd := hu.durations
    split at hd
    · obtain ⟨⟨a, ha⟩, b, hb⟩ := hd.imp Option.isSome_iff_exists.mp Option.isSome_iff_exists.mp
      simp [ha, hb]
    · next ho =>
      have hmd := hm.durations (by rw [show m.optionType = u.optionType from congrArg (·.optionType) h]; exact ho)
      simp [hd, hmd]
  simp [Agrees, sameValues, TradingConditionUpdate.sameScope, TradingConditionUpdate.mergePatch, h, h1, h2, h3, h4,
    h5, h6, h7, hdurations, hu.others, hm.others, hu.message]

/-- What is published when the old snapshots give way to the new ones. -/
def published (old new : List (TradingConditionUpdate F)) (timestamp : Int) (message : String) :
    List (TradingConditionUpdate F) :=
  (old.filter fun previous => ¬ new.any previous.sameScope).map (retired · timestamp message) ++
    new.filter fun current =>
      match old.find? current.sameScope with
      | none => true
      | some previous => !sameValues previous current

/-- What a step makes of the merged condition of a scope. -/
def conditionAfter (old new condition : Option (TradingConditionUpdate F)) (timestamp : Int) (message : String) :
    Option (TradingConditionUpdate F) :=
  match new with
  | some u =>
      match old with
      | some p => if sameValues p u then condition else patched condition u
      | none => patched condition u
  | none =>
      match old with
      | some p => patched condition (retired p timestamp message)
      | none => condition

theorem published_scope {old new : List (TradingConditionUpdate F)} (hold : (old.map (·.scope)).Nodup)
    (hnew : (new.map (·.scope)).Nodup) (timestamp : Int) (message : String) (k : ConditionScope)
    (condition : Option (TradingConditionUpdate F)) :
    ((published old new timestamp message).filter (·.scope = k)).foldl patched condition =
      conditionAfter (snapshotOf old k) (snapshotOf new k) condition timestamp message := by
  have hretired : ((old.filter fun previous => ¬ new.any previous.sameScope).map
      (retired · timestamp message)).filter (·.scope = k) =
        ((snapshotOf old k).toList.filter fun _ => (snapshotOf new k).isNone).map (retired · timestamp message) := by
    rw [List.filter_map, ← filter_scope hold, List.filter_filter, List.filter_filter]
    congr 1
    refine List.filter_congr fun p _ => ?_
    by_cases hp : p.scope = k
    · simp only [Function.comp, retired, hp, any_sameScope]
      cases snapshotOf new k <;> simp
    · simp [Function.comp, retired, hp]
  have hchanged : (new.filter fun current =>
      match old.find? current.sameScope with
      | none => true
      | some previous => !sameValues previous current).filter (·.scope = k) =
        (snapshotOf new k).toList.filter fun current =>
          match snapshotOf old k with
          | none => true
          | some previous => !sameValues previous current := by
    rw [← filter_scope hnew, List.filter_filter, List.filter_filter]
    refine List.filter_congr fun u _ => ?_
    by_cases hu : u.scope = k
    · simp [hu, find_sameScope]
    · simp [hu]
  rw [published, List.filter_append, hretired, hchanged]
  cases hn : snapshotOf new k with
  | none => cases ho : snapshotOf old k <;> simp [conditionAfter]
  | some u =>
      cases ho : snapshotOf old k with
      | none => simp [conditionAfter]
      | some p => cases hs : sameValues p u <;> simp [conditionAfter, hs]

end

section

variable [DecidableEq F]

theorem published_self {l : List (TradingConditionUpdate F)} (h : (l.map (·.scope)).Nodup) (timestamp : Int)
    (message : String) : published l l timestamp message = [] := by
  have hself : ∀ u : TradingConditionUpdate F, sameValues u u = true := fun u => by
    simp [sameValues, TradingConditionUpdate.sameScope]
  have hkept : (l.filter fun previous => ¬ l.any previous.sameScope) = [] := by
    rw [List.filter_eq_nil_iff]
    intro u hu
    simp [any_sameScope, snapshotOf_mem h hu]
  rw [published, hkept, List.map_nil, List.nil_append, List.filter_eq_nil_iff]
  intro u hu
  simp [find_sameScope, snapshotOf_mem h hu, hself]

theorem published_nil (old : List (TradingConditionUpdate F)) (timestamp : Int) (message : String) :
    published old [] timestamp message = old.map (retired · timestamp message) := by
  simp [published]

end

/-! ## The snapshots that are made -/

section

variable [Zero F] (T : TimeShield)

theorem makeSnapshot_full (account : AccountInfoData F) (symbol : String) (optionType : OptionType) (timestamp : Int)
    (connected : Bool) : Full (makeSnapshot T account symbol optionType timestamp connected) where
  marketOpen := rfl
  tradable := rfl
  minAmount := rfl
  maxAmount := rfl
  maxOpenTrades := rfl
  sessionStart := rfl
  sessionEnd := rfl
  durations := by by_cases h : optionType = .sprint <;> simp [makeSnapshot, h]
  others := ⟨rfl, rfl, rfl⟩
  message := rfl

theorem supportedScopes_nodup : supportedScopes.Nodup := by decide

theorem makeSnapshots_nodup (account : AccountInfoData F) (timestamp : Int) (connected : Bool) :
    ((makeSnapshots T account timestamp connected).map (·.scope)).Nodup := by
  rw [makeSnapshots, List.map_map]
  refine supportedScopes_nodup.map fun a b h => ?_
  have hsymbol : a.1 = b.1 := congrArg ConditionScope.symbol h
  have htype : a.2 = b.2 := congrArg ConditionScope.optionType h
  exact Prod.ext hsymbol htype

theorem current_nodup (s : TradingConditionManager F) : ((s.current T).map (·.scope)).Nodup := by
  unfold current
  split
  · exact .nil
  · exact makeSnapshots_nodup T _ _ _

theorem current_full {s : TradingConditionManager F} {u : TradingConditionUpdate F} (h : u ∈ s.current T) :
    Full u := by
  unfold current at h
  split at h
  · cases h
  · obtain ⟨scope, -, rfl⟩ := List.mem_map.mp h
    exact makeSnapshot_full T _ _ _ _ _

variable [DecidableEq F]

/-- The manager keeps the snapshots of its last evaluation. -/
def Recorded (s : TradingConditionManager F) : Prop := s.lastSnapshots = s.current T

/-- A step publishes the difference between the snapshots before it and after it. -/
def Publishes (s : TradingConditionManager F) (answer : TradingConditionManager F × List (TradingConditionUpdate F)) :
    Prop :=
  Recorded T answer.1 ∧ ∃ timestamp message, message ≠ "" ∧
    answer.2 = published (s.current T) (answer.1.current T) timestamp message

theorem Recorded.keep {s s' : TradingConditionManager F} (h : Recorded T s) (hs : s'.lastSnapshots = s.lastSnapshots)
    (he : s'.evaluated = s.evaluated) : Publishes T s (s', []) := by
  have hcurrent : s'.current T = s.current T := by simp [current, he]
  refine ⟨?_, 0, "Intrade Bar account condition scope changed.", by decide, ?_⟩
  · rw [Recorded, hcurrent, hs]
    exact h
  · rw [hcurrent, published_self (current_nodup T s)]

theorem Recorded.refresh {s : TradingConditionManager F} (h : Recorded T s) (timestamp : Int) :
    Publishes T s (s.refresh T timestamp) := by
  unfold TradingConditionManager.refresh
  cases s.knownAccount with
  | none =>
      refine ⟨rfl, timestamp, "Intrade Bar account condition scope changed.", by decide, ?_⟩
      rw [show s.current T = s.lastSnapshots from h.symm]
      simp [published, retireMissingScopes, current]
  | some account =>
      refine ⟨rfl, timestamp, "Intrade Bar account condition scope changed.", by decide, ?_⟩
      rw [show s.current T = s.lastSnapshots from h.symm]
      rfl

theorem Recorded.step {s : TradingConditionManager F} (h : Recorded T s) (e : Event F) :
    Publishes T s (s.step T e) := by
  cases e with
  | accountInfoUpdate accountInfo status nowSec =>
      simp only [TradingConditionManager.step, onEvent]
      split
      · exact h.keep T rfl rfl
      · split
        · exact h.keep T rfl rfl
        · next account _ _ connected _ =>
          exact Recorded.refresh T (s := { s with accountInfo := some account, connected := connected }) h nowSec
  | process nowSec =>
      simp only [TradingConditionManager.step]
      split
      · exact h.keep T rfl rfl
      · exact h.refresh T nowSec
  | shutdown nowSec =>
      refine ⟨rfl, nowSec, "Intrade Bar account condition manager stopped.", by decide, ?_⟩
      rw [show s.current T = s.lastSnapshots from h.symm]
      exact (published_nil _ _ _).symm

end

/-! ## One scope -/

theorem retired_merge (m p : TradingConditionUpdate F) (timestamp : Int) {message : String} (h : message ≠ "") :
    (m.mergePatch (retired p timestamp message)).tradable = some false ∧
      (m.mergePatch (retired p timestamp message)).message ≠ "" := by
  simp [TradingConditionUpdate.mergePatch, retired, h]

section

variable [DecidableEq F]

/-- Where the merged condition of a scope stands: its snapshot, if it has one now, and whether it has had one and
has been without one since. -/
structure Stands (k : ConditionScope) (snapshot condition : Option (TradingConditionUpdate F)) (seen left : Prop) :
    Prop where
  full : ∀ u ∈ snapshot, Full u ∧ u.scope = k
  shaped : ∀ m ∈ condition, Shaped m ∧ m.scope = k
  agrees : ∀ u ∈ snapshot, ∃ m ∈ condition, Agrees m u
  gone : snapshot = none → ∀ m ∈ condition, m.tradable = some false
  known : seen ↔ condition.isSome
  lost : snapshot = none → seen → left
  message : ∀ m ∈ condition, (m.message = "" ↔ ¬ left)

theorem Stands.mono {k : ConditionScope} {snapshot condition : Option (TradingConditionUpdate F)}
    {seen left seen' left' : Prop} (h : Stands k snapshot condition seen left) (hs : seen' ↔ seen)
    (hl : left' ↔ left) : Stands k snapshot condition seen' left' := by
  rw [show seen' = seen from propext hs, show left' = left from propext hl]
  exact h

/-- A snapshot that is published. -/
theorem Stands.publish {k : ConditionScope} {old condition : Option (TradingConditionUpdate F)} {seen left : Prop}
    (h : Stands k old condition seen left) {u : TradingConditionUpdate F} (hu : Full u) (hk : u.scope = k)
    (hleft : left → seen) : Stands k (some u) (patched condition u) True left := by
  cases hc : condition with
  | none =>
      have hno : ¬ left := fun hl => by simpa [hc] using h.known.mp (hleft hl)
      exact {
        full := by simpa using ⟨hu, hk⟩
        shaped := by simpa [patched] using ⟨hu.shaped, hk⟩
        agrees := by simpa [patched] using Agrees.self hu
        gone := fun hn => by cases hn
        known := by simp [patched]
        lost := fun hn => by cases hn
        message := by simpa [patched, hno] using hu.message }
  | some m =>
      obtain ⟨hm, hmk⟩ := h.shaped m hc
      have hmu : m.scope = u.scope := hmk.trans hk.symm
      exact {
        full := by simpa using ⟨hu, hk⟩
        shaped := by simpa [patched] using ⟨hm.merge hu.shaped hmu, hmk⟩
        agrees := by simpa [patched] using Agrees.merge hm hu hmu
        gone := fun hn => by cases hn
        known := by simp [patched]
        lost := fun hn => by cases hn
        message := by simpa [patched, TradingConditionUpdate.mergePatch, hu.message] using h.message m hc }

theorem Stands.step {k : ConditionScope} {old new condition : Option (TradingConditionUpdate F)} {seen left : Prop}
    (h : Stands k old condition seen left) (hnew : ∀ u ∈ new, Full u ∧ u.scope = k) (hleft : left → seen)
    (timestamp : Int) {message : String} (hmessage : message ≠ "") :
    Stands k new (conditionAfter old new condition timestamp message) (seen ∨ new.isSome)
      (left ∨ (seen ∨ new.isSome) ∧ new = none) := by
  cases new with
  | some u =>
      obtain ⟨hu, hk⟩ := hnew u rfl
      cases old with
      | none => exact (h.publish hu hk hleft).mono (by simp) (by simp)
      | some p =>
          simp only [conditionAfter]
          split
          · next hsame =>
            obtain ⟨m, hm, hagrees⟩ := h.agrees p rfl
            have hseen : seen := h.known.mpr (by simp [Option.mem_def.mp hm])
            exact {
              full := hnew
              shaped := h.shaped
              agrees := by
                intro v hv
                cases hv
                exact ⟨m, hm, hagrees.trans hsame⟩
              gone := fun hn => by cases hn
              known := by simpa [hseen] using h.known.mp hseen
              lost := fun hn => by cases hn
              message := by simpa using h.message }
          · exact (h.publish hu hk hleft).mono (by simp) (by simp)
  | none =>
      cases old with
      | none =>
          refine { h with known := by simpa [conditionAfter] using h.known, lost := fun hn hs => .inr ⟨hs, rfl⟩, message := ?_ }
          intro m (hm : m ∈ condition)
          have hseen : seen := h.known.mpr (by simp [Option.mem_def.mp hm])
          have hl := h.lost rfl hseen
          simpa [hseen, hl] using h.message m hm
      | some p =>
          obtain ⟨m, hm, -⟩ := h.agrees p rfl
          obtain ⟨hpfull, hpk⟩ := h.full p rfl
          obtain ⟨hshaped, hmk⟩ := h.shaped m hm
          have hseen : seen := h.known.mpr (by simp [Option.mem_def.mp hm])
          obtain ⟨htradable, hloud⟩ := retired_merge m p timestamp hmessage
          rw [Option.mem_def] at hm
          subst hm
          exact {
            full := hnew
            shaped := by
              simpa [conditionAfter, patched] using
                ⟨hshaped.merge (retired_shaped p timestamp message) (hmk.trans hpk.symm), hmk⟩
            agrees := fun u hu => by cases hu
            gone := fun _ => by simpa [conditionAfter, patched] using htradable
            known := by simpa [conditionAfter, patched] using hseen
            lost := fun _ hs => .inr ⟨hs, rfl⟩
            message := by simpa [conditionAfter, patched, hseen] using hloud }

end

end OptionX.IntradeBar.TradingConditionManager
